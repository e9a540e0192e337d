import AdaptiveScript.Compilation
import AdaptiveScript.Proofs.Emission.Relation
import AdaptiveScript.Proofs.Program.Uses
import AdaptiveScript.Proofs.Triple

/-!
# Where emission fails

Emission fails at the first use of the body that is not legal, and only there
(`Emit.reports_block`).  Neither the types that were found nor the state of the emitter have a say
in this: types decide which code stands for a node, and whether the key of an access is emitted at
all, but a key that is left out is a constant, which uses nothing.

So code belongs to well-formed sources only (`EmitsBlock.wellFormed`).
-/

namespace AdaptiveScript

/-- The error of a computation that failed. -/
def fault? {ε α : Type} : Except ε α → Option ε
  | .ok _ => none
  | .error e => some e

namespace Emit

variable {α β : Type}

/-- Whatever the state is, a computation fails at the first of some uses that is not legal. -/
def Reports (scope : Scope) (uses : List Use) (x : Emit α) : Prop :=
  ∀ s, fault? (x.run.run s).1 = Use.firstFault scope.program scope.proto uses

/-! ## The steps of emission -/

section

variable {scope : Scope} {uses others : List Use}

theorem reports_pure (a : α) : Reports scope [] (pure a : Emit α) :=
  fun _ => rfl

theorem Reports.bind {x : Emit α} {f : α → Emit β} (hx : Reports scope uses x)
    (hf : ∀ a, Reports scope others (f a)) : Reports scope (uses ++ others) (x >>= f) := by
  intro s
  rw [Use.firstFault_append, ← hx s, run_bind]
  cases x.run.run s with
  | mk result s' =>
    cases result with
    | error e => rfl
    | ok a => exact hf a s'

/-- A step that cannot fail comes first. -/
theorem Reports.seq {x : Emit α} {f : α → Emit β} (hx : Reports scope [] x)
    (hf : ∀ a, Reports scope uses (f a)) : Reports scope uses (x >>= f) :=
  hx.bind hf

/-- A step that cannot fail comes last. -/
theorem Reports.last {x : Emit α} {f : α → Emit β} (hx : Reports scope uses x)
    (hf : ∀ a, Reports scope [] (f a)) : Reports scope uses (x >>= f) := by
  simpa using hx.bind hf

theorem Reports.of_legal {use : Use} {x : Emit α} (h : use.Legal scope.program scope.proto)
    (hx : Reports scope uses x) : Reports scope (use :: uses) x := by
  intro s
  rw [hx s, Use.firstFault_cons_of_legal h]

theorem reports_throw {use : Use} (h : ¬ use.Legal scope.program scope.proto) :
    Reports scope (use :: uses) (throw (use.error scope.program scope.proto) : Emit α) := by
  intro s
  rw [Use.firstFault_cons_of_not_legal h]
  rfl

theorem reports_learn (x : Learn α) : Reports scope [] (learn x) :=
  fun _ => rfl

theorem reports_layout (shape : ShapeId) : Reports scope [] (layout shape) :=
  fun _ => rfl

theorem reports_call (callee : Emitted) (args : List Emitted) (truncate : Bool) :
    Reports scope [] (call callee args truncate) :=
  fun _ => rfl

theorem reports_literal (l : Literal) : Reports scope [] (literal l) := by
  intro s
  cases l <;> rfl

/-- The key of an access is emitted unless it is a constant. -/
theorem reports_field? {target : Ty} {key : Expr} {f : Option Field → Emit α}
    (hsome : ∀ field, Reports scope uses (f (some field)))
    (hnone : Reports scope (key.uses ++ uses) (f none)) :
    Reports scope (key.uses ++ uses) (field? target key >>= f) := by
  unfold field?
  split
  next shape name hshape hname =>
    rw [Expr.uses_of_constantKey? hname] at hnone ⊢
    refine Reports.seq ((reports_layout shape).seq fun l => reports_pure _) fun result => ?_
    cases result with
    | some field => exact hsome field
    | none => exact hnone
  next => rwa [pure_bind]

end

variable (scope : Scope)

theorem reports_announce (form : String) : Reports scope [] (scope.announce form) :=
  reports_learn _

theorem reports_checkSlot (slot : Nat) : Reports scope [.slot slot] (scope.checkSlot slot) := by
  unfold Scope.checkSlot
  split
  next h => exact .of_legal h (reports_pure ())
  next h => exact reports_throw h

theorem reports_checkUpvalue (index : Nat) :
    Reports scope [.upvalue index] (scope.checkUpvalue index) := by
  unfold Scope.checkUpvalue
  split
  next h => exact .of_legal h (reports_pure ())
  next h => exact reports_throw h

theorem reports_checkCapture (c : Capture) : Reports scope [c.use] (scope.checkCapture c) := by
  cases c with
  | slot index => exact reports_checkSlot scope index
  | upvalue index => exact reports_checkUpvalue scope index

theorem reports_checkCaptures (captures : List Capture) :
    Reports scope (captures.map Capture.use) (captures.forM scope.checkCapture) := by
  induction captures with
  | nil => exact reports_pure ()
  | cons c rest ih => exact (reports_checkCapture scope c).bind fun _ => ih

/-! ## Expressions -/

mutual

/-- Emission of an expression fails at the first of its uses that is not legal. -/
theorem reports_expr : ∀ e : Expr, Reports scope e.uses (expr scope e)
  | .literal l => by
    rw [expr, Expr.uses]
    exact (reports_announce scope _).seq fun _ => reports_literal l
  | .slot index => by
    rw [expr, Expr.uses]
    refine (reports_announce scope _).seq fun _ => ?_
    exact (reports_checkSlot scope index).last fun _ => reports_pure _
  | .upvalue index => by
    rw [expr, Expr.uses]
    refine (reports_announce scope _).seq fun _ => ?_
    exact (reports_checkUpvalue scope index).last fun _ => reports_pure _
  | .global name => by
    rw [expr, Expr.uses]
    exact (reports_announce scope _).seq fun _ => reports_pure _
  | .binary op left right => by
    rw [expr, Expr.uses]
    refine (reports_announce scope _).seq fun _ => ?_
    refine (reports_expr left).bind fun l => ?_
    exact (reports_expr right).last fun r => reports_pure _
  | .logical op left right => by
    rw [expr, Expr.uses]
    refine (reports_announce scope _).seq fun _ => ?_
    refine (reports_expr left).bind fun l => ?_
    exact (reports_expr right).last fun r => reports_pure _
  | .unary op operand => by
    rw [expr, Expr.uses]
    refine (reports_announce scope _).seq fun _ => ?_
    exact (reports_expr operand).last fun c => reports_pure _
  | .index target key => by
    rw [expr, Expr.uses]
    refine (reports_announce scope _).seq fun _ => ?_
    refine (reports_expr target).bind fun t => ?_
    rw [← List.append_nil key.uses]
    refine reports_field? (fun f => reports_pure _) ?_
    exact (reports_expr key).bind fun k => reports_pure _
  | .call callee args => by
    rw [expr, Expr.uses]
    refine (reports_announce scope _).seq fun _ => ?_
    refine (reports_expr callee).bind fun c => ?_
    refine (reports_exprs args).last fun cs => ?_
    refine (reports_call c cs true).seq fun code => ?_
    exact (reports_learn _).seq fun type => reports_pure _
  | .function ref captures => by
    rw [expr, Expr.uses]
    refine (reports_announce scope _).seq fun _ => ?_
    split
    next h => exact reports_throw h
    next h =>
      refine .of_legal (Decidable.not_not.mp h) ?_
      exact (reports_checkCaptures scope captures).last fun _ => reports_pure _
  | .table shape entries => by
    rw [expr, Expr.uses]
    refine (reports_announce scope _).seq fun _ => ?_
    refine (reports_layout shape).seq fun l => ?_
    refine (reports_inits l entries).last fun is => ?_
    exact (reports_learn _).seq fun type => reports_pure _

theorem reports_exprs : ∀ es : List Expr, Reports scope (Expr.listUses es) (exprs scope es)
  | [] => by
    rw [exprs, Expr.listUses]
    exact reports_pure _
  | e :: es => by
    rw [exprs, Expr.listUses]
    refine (reports_expr e).bind fun c => ?_
    exact (reports_exprs es).last fun cs => reports_pure _

theorem reports_inits (l : Layout) : ∀ entries : List Entry,
    Reports scope (Expr.entryUses entries) (inits scope l entries)
  | [] => by
    rw [inits, Expr.entryUses]
    exact reports_pure _
  | .named name value :: rest => by
    rw [inits, Expr.entryUses]
    refine (reports_expr value).bind fun v => ?_
    exact (reports_inits l rest).last fun is => reports_pure _
  | .keyed key value :: rest => by
    rw [inits, Expr.entryUses, List.append_assoc]
    split
    next name hname =>
      rw [Expr.uses_of_constantKey? hname]
      refine (reports_expr value).bind fun v => ?_
      exact (reports_inits l rest).last fun is => reports_pure _
    next =>
      refine (reports_expr key).bind fun k => ?_
      refine (reports_expr value).bind fun v => ?_
      exact (reports_inits l rest).last fun is => reports_pure _
  | .positional value :: rest => by
    rw [inits, Expr.entryUses]
    refine (reports_expr value).bind fun v => ?_
    exact (reports_inits l rest).last fun is => reports_pure _

end

/-! ## Statements -/

theorem reports_step (step : Option Expr) :
    Reports scope (Expr.optionUses step) (Emit.step scope step) := by
  cases step with
  | some e => exact reports_expr scope e
  | none => exact reports_pure _

/-- The call of a statement: callee and arguments are emitted, and the rest cannot fail. -/
theorem reports_callParts (callee : Expr) (args : List Expr) (truncate : Bool)
    {f : Emitted → CallCode → Emit Step} (hf : ∀ c code, Reports scope [] (f c code)) :
    Reports scope (callee.uses ++ Expr.listUses args) (do
      let c ← expr scope callee
      let as ← exprs scope args
      let code ← call c as truncate
      f c code) := by
  refine (reports_expr scope callee).bind fun c => ?_
  refine (reports_exprs scope args).last fun cs => ?_
  exact (reports_call c cs truncate).seq fun code => hf c code

theorem reports_ret (values : List Expr) :
    Reports scope (Expr.listUses values) (ret scope values) := by
  unfold ret
  split
  next callee args =>
    rw [Expr.listUses, Expr.listUses, List.append_nil, Expr.uses]
    exact reports_callParts scope callee args false fun c code =>
      (reports_learn _).seq fun _ => reports_pure _
  next => exact (reports_exprs scope values).last fun vs => reports_pure _

theorem reports_discard (e : Expr) : Reports scope e.uses (discard scope e) := by
  unfold discard
  split
  next callee args =>
    rw [Expr.uses]
    exact reports_callParts scope callee args true fun c code => reports_pure _
  next => exact (reports_expr scope e).last fun c => reports_pure _

mutual

/-- Emission of a statement fails at the first of its uses that is not legal. -/
theorem reports_stmt : ∀ (inLoop : Bool) (st : Stmt),
    Reports scope (st.uses inLoop) (stmt scope inLoop st)
  | inLoop, .declare slot (some e) => by
    rw [stmt, Stmt.uses]
    refine (reports_announce scope _).seq fun _ => ?_
    refine (reports_checkSlot scope slot).bind fun _ => ?_
    exact (reports_expr scope e).last fun c => reports_pure _
  | inLoop, .declare slot none => by
    rw [stmt, Stmt.uses]
    refine (reports_announce scope _).seq fun _ => ?_
    exact (reports_checkSlot scope slot).bind fun _ => reports_pure _
  | inLoop, .assign slot value => by
    rw [stmt, Stmt.uses]
    refine (reports_announce scope _).seq fun _ => ?_
    refine (reports_checkSlot scope slot).bind fun _ => ?_
    exact (reports_expr scope value).last fun c => reports_pure _
  | inLoop, .setUpvalue index value => by
    rw [stmt, Stmt.uses]
    refine (reports_announce scope _).seq fun _ => ?_
    refine (reports_checkUpvalue scope index).bind fun _ => ?_
    exact (reports_expr scope value).last fun c => reports_pure _
  | inLoop, .setGlobal name value => by
    rw [stmt, Stmt.uses]
    refine (reports_announce scope _).seq fun _ => ?_
    exact (reports_expr scope value).last fun c => reports_pure _
  | inLoop, .setIndex target key value => by
    rw [stmt, Stmt.uses, List.append_assoc]
    refine (reports_announce scope _).seq fun _ => ?_
    refine (reports_expr scope target).bind fun t => ?_
    refine reports_field? (fun f => ?_) ?_
    · exact (reports_expr scope value).last fun v => reports_pure _
    · refine (reports_expr scope key).bind fun k => ?_
      exact (reports_expr scope value).last fun v => reports_pure _
  | inLoop, .expr e => by
    rw [stmt, Stmt.uses]
    exact (reports_announce scope _).seq fun _ => reports_discard scope e
  | inLoop, .branch cond thenBlock elseBlock => by
    rw [stmt, Stmt.uses, List.append_assoc]
    refine (reports_announce scope _).seq fun _ => ?_
    refine (reports_expr scope cond).bind fun c => ?_
    refine (reports_block inLoop thenBlock).bind fun t => ?_
    exact (reports_block inLoop elseBlock).last fun e => reports_pure _
  | inLoop, .whileLoop cond body => by
    rw [stmt, Stmt.uses]
    refine (reports_announce scope _).seq fun _ => ?_
    refine (reports_expr scope cond).bind fun c => ?_
    exact (reports_block true body).last fun b => reports_pure _
  | inLoop, .forLoop slot start limit step body => by
    rw [stmt, Stmt.uses, List.append_assoc, List.append_assoc]
    refine (reports_announce scope _).seq fun _ => ?_
    refine (reports_checkSlot scope slot).bind fun _ => ?_
    refine (reports_expr scope start).bind fun a => ?_
    refine (reports_expr scope limit).bind fun l => ?_
    refine (reports_step scope step).bind fun d => ?_
    exact (reports_block true body).last fun b => reports_pure _
  | inLoop, .ret values => by
    rw [stmt, Stmt.uses]
    exact (reports_announce scope _).seq fun _ => reports_ret scope values
  | inLoop, .breakLoop => by
    rw [stmt, Stmt.uses]
    refine (reports_announce scope _).seq fun _ => ?_
    split
    next h => exact .of_legal h (reports_pure _)
    next h => exact reports_throw h

/-- Emission of a block fails at the first of its uses that is not legal. -/
theorem reports_block : ∀ (inLoop : Bool) (block : List Stmt),
    Reports scope (Stmt.blockUses inLoop block) (Emit.block scope inLoop block)
  | inLoop, [] => by
    rw [Emit.block, Stmt.blockUses]
    exact reports_pure _
  | inLoop, st :: rest => by
    rw [Emit.block, Stmt.blockUses]
    refine (reports_stmt inLoop st).bind fun c => ?_
    exact (reports_block inLoop rest).last fun cs => reports_pure _

end
end Emit

/-! ## The function that is compiled -/

namespace Inference

/-- What an analysis is about, and how many passes it makes at most. -/
def subject (ctx : Inference) : Prototype × Nat :=
  (ctx.proto, ctx.maxIterations)

variable (returnsOf : ReturnsOf)

theorem subject_assign (ctx : Inference) (slot : Nat) (type : Ty) (k : Knowledge) :
    ((ctx.assign slot type).run k).1.subject = ctx.subject := by
  unfold assign
  split <;> rfl

mutual

theorem subject_walk : ∀ (st : Stmt) (ctx : Inference) (k : Knowledge),
    ((walk returnsOf st ctx).run k).1.subject = ctx.subject
  | .declare slot (some e), ctx, k => by
    rw [walk]
    exact subject_assign ctx slot _ _
  | .declare slot none, ctx, k => by
    rw [walk]
    exact subject_assign ctx slot .nil k
  | .assign slot value, ctx, k => by
    rw [walk]
    exact subject_assign ctx slot _ _
  | .setUpvalue _ value, ctx, k => by
    rw [walk]
    rfl
  | .setGlobal _ value, ctx, k => by
    rw [walk]
    rfl
  | .setIndex target key value, ctx, k => by
    rw [walk]
    rfl
  | .expr e, ctx, k => by
    rw [walk]
    rfl
  | .branch cond thenBlock elseBlock, ctx, k => by
    rw [walk]
    exact (subject_walkBlock elseBlock _ _).trans (subject_walkBlock thenBlock ctx _)
  | .whileLoop cond body, ctx, k => by
    rw [walk]
    exact subject_walkBlock body ctx _
  | .forLoop slot start limit step body, ctx, k => by
    rw [walk]
    exact (subject_walkBlock body _ _).trans (subject_assign ctx slot _ _)
  | .ret values, ctx, k => by
    rw [walk]
    rfl
  | .breakLoop, ctx, k => by
    rw [walk]
    rfl

theorem subject_walkBlock : ∀ (block : List Stmt) (ctx : Inference) (k : Knowledge),
    ((walkBlock returnsOf block ctx).run k).1.subject = ctx.subject
  | [], ctx, k => by
    rw [walkBlock]
    rfl
  | st :: rest, ctx, k => by
    rw [walkBlock]
    exact (subject_walkBlock rest _ _).trans (subject_walk st ctx k)

end

theorem subject_walkBody (body : List Stmt) (ctx : Inference) (k : Knowledge) :
    ((walkBody returnsOf body ctx).run k).1.subject = ctx.subject := by
  have hblock := subject_walkBlock returnsOf body { ctx with returns := none } k
  unfold walkBody
  split <;> exact hblock

theorem subject_analyzeFrom (body : List Stmt) (remaining : Nat) :
    ∀ (done : Nat) (ctx : Inference) (k : Knowledge),
      ((analyzeFrom returnsOf body remaining done ctx).run k).1.subject = ctx.subject := by
  induction remaining with
  | zero =>
    intro done ctx k
    exact subject_walkBody returnsOf body _ _
  | succ remaining ih =>
    intro done ctx k
    have hbody := subject_walkBody returnsOf body ctx k
    rw [analyzeFrom, StateT.run_bind]
    dsimp only [bind]
    split
    · exact hbody
    · exact (ih _ _ _).trans hbody

/-- Analysis does not change what it is about. -/
theorem subject_analyze (body : List Stmt) (ctx : Inference) (k : Knowledge) :
    ((analyze returnsOf body ctx).run k).1.subject = ctx.subject :=
  subject_analyzeFrom returnsOf body _ _ ctx k

theorem proto_analyze (body : List Stmt) (ctx : Inference) (k : Knowledge) :
    ((analyze returnsOf body ctx).run k).1.proto = ctx.proto :=
  congrArg Prod.fst (subject_analyze returnsOf body ctx k)

theorem maxIterations_analyze (body : List Stmt) (ctx : Inference) (k : Knowledge) :
    ((analyze returnsOf body ctx).run k).1.maxIterations = ctx.maxIterations :=
  congrArg Prod.snd (subject_analyze returnsOf body ctx k)

end Inference

/-- **Compilation of a body** fails at the first use that is not legal. -/
theorem Emit.fault?_body (program : Program) (proto : Prototype) (signature : Signature)
    (maxIterations : Nat) (s : Emitter) :
    fault? ((Compile.body program proto signature maxIterations).run.run s).1 =
      Use.firstFault program proto (Stmt.blockUses false proto.body) := by
  let start := Inference.ofTypes proto signature.args signature.upvalues maxIterations
  let analysis := (start.analyze (Inference.returnTypesOf program start.maxIterations)
    proto.body).run s.knowledge
  have hproto : analysis.1.proto = proto := Inference.proto_analyze _ _ _ _
  have hblock := (reports_block ⟨program, analysis.1⟩ false proto.body).last
    (f := fun steps => pure (analysis.1, steps)) (fun _ => reports_pure _)
    { s with knowledge := analysis.2 }
  rw [show (Scope.mk program analysis.1).proto = proto from hproto] at hblock
  exact hblock

/-! ## Code belongs to well-formed sources -/

section

variable {σ : Setting}

mutual

theorem Emits.wellFormed : ∀ {e : Expr} {c : Emitted}, Emits σ e c →
    e.WellFormed σ.program σ.proto
  | _, _, .nil | _, _, .bool _ | _, _, .int _ | _, _, .float _ | _, _, .str _ => by
    rw [Expr.WellFormed]
    trivial
  | _, _, .slot h => by rwa [Expr.WellFormed]
  | _, _, .upvalue h => by rwa [Expr.WellFormed]
  | _, _, .global _ => by
    rw [Expr.WellFormed]
    trivial
  | _, _, .binary hl hr => by
    rw [Expr.WellFormed]
    exact ⟨hl.wellFormed, hr.wellFormed⟩
  | _, _, .logical hl hr => by
    rw [Expr.WellFormed]
    exact ⟨hl.wellFormed, hr.wellFormed⟩
  | _, _, .unary h => by
    rw [Expr.WellFormed]
    exact h.wellFormed
  | _, _, .field ht hkey _ _ => by
    rw [Expr.WellFormed]
    exact ⟨ht.wellFormed, Expr.wellFormed_of_constantKey? hkey⟩
  | _, _, .index ht hk => by
    rw [Expr.WellFormed]
    exact ⟨ht.wellFormed, hk.wellFormed⟩
  | _, _, .call hc hcs _ _ _ => by
    rw [Expr.WellFormed]
    exact ⟨hc.wellFormed, hcs.wellFormed⟩
  | _, _, .function hproto hlength hcaptures => by
    rw [Expr.WellFormed, Program.upvalueCount, hproto]
    exact ⟨hlength, hcaptures⟩
  | _, _, .table _ _ his => by
    rw [Expr.WellFormed]
    exact his.wellFormed

theorem EmitsAll.wellFormed : ∀ {es : List Expr} {cs : List Emitted}, EmitsAll σ es cs →
    Expr.AllWellFormed σ.program σ.proto es
  | _, _, .nil => by
    rw [Expr.AllWellFormed]
    trivial
  | _, _, .cons h hs => by
    rw [Expr.AllWellFormed]
    exact ⟨h.wellFormed, hs.wellFormed⟩

theorem EmitsInits.wellFormed : ∀ {l : Layout} {entries : List Entry} {is : List Init},
    EmitsInits σ l entries is → Expr.EntriesWellFormed σ.program σ.proto entries
  | _, _, _, .nil => by
    rw [Expr.EntriesWellFormed]
    trivial
  | _, _, _, .named hv his => by
    rw [Expr.EntriesWellFormed]
    exact ⟨hv.wellFormed, his.wellFormed⟩
  | _, _, _, .constant hkey hv his => by
    rw [Expr.EntriesWellFormed]
    exact ⟨Expr.wellFormed_of_constantKey? hkey, hv.wellFormed, his.wellFormed⟩
  | _, _, _, .keyed hk hv his => by
    rw [Expr.EntriesWellFormed]
    exact ⟨hk.wellFormed, hv.wellFormed, his.wellFormed⟩
  | _, _, _, .positional hv his => by
    rw [Expr.EntriesWellFormed]
    exact ⟨hv.wellFormed, his.wellFormed⟩

end

theorem EmitsStep.wellFormed {step : Option Expr} {c : Emitted} (h : EmitsStep σ step c) :
    ∀ e ∈ step, e.WellFormed σ.program σ.proto := by
  rintro e he
  cases h with
  | none => cases he
  | some hemits =>
    cases he
    exact hemits.wellFormed

mutual

theorem EmitsStmt.wellFormed : ∀ {inLoop : Bool} {st : Stmt} {c : Step},
    EmitsStmt σ inLoop st c → st.WellFormed σ.program σ.proto inLoop
  | _, _, _, .declare hslot he => by
    rw [Stmt.WellFormed]
    exact ⟨hslot, by rintro _ ⟨⟩; exact he.wellFormed⟩
  | _, _, _, .declareNil hslot => by
    rw [Stmt.WellFormed]
    exact ⟨hslot, nofun⟩
  | _, _, _, .assign hslot he => by
    rw [Stmt.WellFormed]
    exact ⟨hslot, he.wellFormed⟩
  | _, _, _, .setUpvalue hindex he => by
    rw [Stmt.WellFormed]
    exact ⟨hindex, he.wellFormed⟩
  | _, _, _, .setGlobal he => by
    rw [Stmt.WellFormed]
    exact he.wellFormed
  | _, _, _, .setField ht hkey _ _ hv => by
    rw [Stmt.WellFormed]
    exact ⟨ht.wellFormed, Expr.wellFormed_of_constantKey? hkey, hv.wellFormed⟩
  | _, _, _, .setIndex ht hk hv => by
    rw [Stmt.WellFormed]
    exact ⟨ht.wellFormed, hk.wellFormed, hv.wellFormed⟩
  | _, _, _, .call hc hcs _ => by
    rw [Stmt.WellFormed, Expr.WellFormed]
    exact ⟨hc.wellFormed, hcs.wellFormed⟩
  | _, _, _, .discard he => by
    rw [Stmt.WellFormed]
    exact he.wellFormed
  | _, _, _, .branch hc ht he => by
    rw [Stmt.WellFormed]
    exact ⟨hc.wellFormed, ht.wellFormed, he.wellFormed⟩
  | _, _, _, .whileLoop hc hb => by
    rw [Stmt.WellFormed]
    exact ⟨hc.wellFormed, hb.wellFormed⟩
  | _, _, _, .forLoop hslot hs hl hd hb => by
    rw [Stmt.WellFormed]
    exact ⟨hslot, hs.wellFormed, hl.wellFormed, hd.wellFormed, hb.wellFormed⟩
  | _, _, _, .retCall hc hcs _ => by
    rw [Stmt.WellFormed, Expr.AllWellFormed, Expr.AllWellFormed, Expr.WellFormed]
    exact ⟨⟨hc.wellFormed, hcs.wellFormed⟩, trivial⟩
  | _, _, _, .ret _ hcs => by
    rw [Stmt.WellFormed]
    exact hcs.wellFormed
  | _, _, _, .breakLoop => by rw [Stmt.WellFormed]

/-- A block that has code is well formed. -/
theorem EmitsBlock.wellFormed : ∀ {inLoop : Bool} {block : List Stmt} {cs : List Step},
    EmitsBlock σ inLoop block cs → Stmt.BlockWellFormed σ.program σ.proto inLoop block
  | _, _, _, .nil => by
    rw [Stmt.BlockWellFormed]
    trivial
  | _, _, _, .cons h hs => by
    rw [Stmt.BlockWellFormed]
    exact ⟨h.wellFormed, hs.wellFormed⟩

end

end
end AdaptiveScript
