import AdaptiveScript.Proofs.Run.SiteSteps
import AdaptiveScript.Proofs.Run.Variables

/-!
# Functions that only compute

An expression without calls, function literals and table constructors makes nothing and changes
nothing.  A function computes (`Prototype.computes`) if it evaluates such expressions, keeps what
it finds in locals that no literal captures, and returns.

However such a function was specialized and whatever it is called with, once a call through a
site has got to its code the shared objects stay as they are (`Machine.Rests`), at the end and
at every moment on the way (`Linking.CanCompute.exists_rests`).  So no other call is made, and
promises about upvalues are kept (`Linking.CanCompute.fair_call`).
-/

namespace AdaptiveScript

/-! ## The functions -/

/-- An expression calls nothing and makes nothing. -/
def Expr.computes : Expr → Bool
  | .literal _ => true
  | .slot _ => true
  | .upvalue _ => true
  | .global _ => true
  | .binary _ left right => left.computes && right.computes
  | .logical _ left right => left.computes && right.computes
  | .unary _ operand => operand.computes
  | .index target key => target.computes && key.computes
  | .call _ _ => false
  | .function _ _ => false
  | .table _ _ => false

mutual

/-- A statement changes locals only, and does not loop. -/
def Stmt.computes : Stmt → Bool
  | .declare _ value => value.all Expr.computes
  | .assign _ value => value.computes
  | .expr e => e.computes
  | .branch cond thenBlock elseBlock =>
    cond.computes && (Stmt.blockComputes thenBlock && Stmt.blockComputes elseBlock)
  | .ret values => values.all Expr.computes
  | _ => false

/-- The statements of a block change locals only, and do not loop. -/
def Stmt.blockComputes : List Stmt → Bool
  | [] => true
  | s :: rest => s.computes && Stmt.blockComputes rest

end

/-- A function changes nothing but locals that no literal captures. -/
def Prototype.computes (proto : Prototype) : Bool :=
  Stmt.blockComputes proto.body && proto.locals.toList.all fun decl => !decl.captured

/-! ## Machines at rest -/

/-- Program, shapes and shared objects are as they were, also at the moments in between, and no
call was made through a site. -/
structure Machine.Rests (before after : Machine) : Prop where
  program : after.program = before.program
  shapes : after.shapes = before.shapes
  heap : after.heap = before.heap
  moments : ∀ {t : Moment}, after.moments t → before.moments t ∨ t = before.moment
  calls : after.calls = before.calls

namespace Machine.Rests

theorem refl (m : Machine) : m.Rests m :=
  ⟨rfl, rfl, rfl, .inl, rfl⟩

theorem trans {a b c : Machine} (hab : a.Rests b) (hbc : b.Rests c) : a.Rests c := by
  refine ⟨hbc.program.trans hab.program, hbc.shapes.trans hab.shapes, hbc.heap.trans hab.heap,
    fun ht => ?_, hbc.calls.trans hab.calls⟩
  rcases hbc.moments ht with hbefore | rfl
  · exact hab.moments hbefore
  · exact .inr (congrArg₂ Moment.mk hab.shapes hab.heap)

instance : Trans Machine.Rests Machine.Rests Machine.Rests :=
  ⟨trans⟩

/-- The objects are replaced by themselves. -/
theorem setHeap (m : Machine) : m.Rests (m.setHeap m.heap) :=
  ⟨rfl, rfl, rfl, fun ht => ht, rfl⟩

/-- **Promises** are kept while a machine rests. -/
theorem fair {m m' : Machine} (h : m.Sound) (hrests : m.Rests m') (hfair : m.Fair) : m'.Fair := by
  obtain ⟨shapes, hmoment, -⟩ := h.recorded
  -- a moment on the way has the objects of a moment that is remembered
  have hseen {t : Moment} (ht : m'.moments t) : ∃ t₀, m.moments t₀ ∧ t₀.heap = t.heap := by
    rcases hrests.moments ht with hbefore | rfl
    · exact ⟨t, hbefore, rfl⟩
    · exact ⟨_, hmoment, rfl⟩
  refine ⟨by rw [hrests.program]; exact hfair.assigned, fun t ht => ?_, fun t t' ht ht' => ?_⟩
  · rw [hrests.program]
    rcases hrests.moments ht with hbefore | rfl
    · exact hfair.kept.declared t hbefore
    · intro ref c proto i template cell type hc hproto htemplate hcell htype
      exact hfair.kept.admits h hc hproto htemplate hcell htype
  · rw [hrests.program]
    obtain ⟨t₀, ht₀, hheap⟩ := hseen ht
    obtain ⟨t₀', ht₀', hheap'⟩ := hseen ht'
    have hsealed := hfair.kept.unwritten t₀ t₀' ht₀ ht₀'
    unfold Moment.Sealed at hsealed ⊢
    rwa [hheap, hheap'] at hsealed

end Machine.Rests

/-! ## Computations at rest -/

/-- From every machine, a computation leaves the objects as they are, and its result has a
property. -/
def Restful {α : Type} (x : Run α) (Q : α → Prop) : Prop :=
  ∀ m : Machine, Yields Machine.Rests m x False fun a _ => Q a

namespace Restful

variable {α β : Type} {Q : α → Prop} {Q' : β → Prop}

theorem pure {a : α} (h : Q a) : Restful (pure a) Q :=
  fun m => .pure (.refl m) h

theorem ofExcept (x : Except RuntimeError α) : Restful (Run.ofExcept x) fun _ => True := by
  intro m
  cases x with
  | error e => exact .throw (.refl m) id
  | ok a => exact .pure (.refl m) trivial

theorem bind {x : Run α} {f : α → Run β} (hx : Restful x Q) (hf : ∀ a, Q a → Restful (f a) Q') :
    Restful (x >>= f) Q' :=
  fun m => (hx m).bind (fun hno => hno.elim) fun a m' _ ha => hf a ha m'

/-- A computation whose result does not matter comes first. -/
theorem andThen {x : Run α} {f : α → Run β} (hx : Restful x fun _ => True)
    (hf : ∀ a, Restful (f a) Q') : Restful (x >>= f) Q' :=
  hx.bind fun a _ => hf a

/-- A look at the machine comes first. -/
theorem look {f : Machine → Run β} (h : ∀ m, Restful (f m) Q') : Restful (get >>= f) Q' :=
  fun m => .of_get (h m m)

theorem readLocal (frame : Frame) (slot : Nat) :
    Restful (Run.readLocal frame slot) fun _ => True :=
  fun _ => ⟨⟨rfl, rfl, rfl, .inl, rfl⟩, fun _ => trivial, fun hno => hno.elim⟩

theorem shortCircuit (op : LogicalOp) (isTrue : α → Bool) (left : α) {right : Run α}
    (h : Restful right fun _ => True) :
    Restful (shortCircuit op isTrue left right) fun _ => True := by
  cases op <;> unfold AdaptiveScript.shortCircuit <;> dsimp only <;> split
  · exact h
  · exact pure trivial
  · exact pure trivial
  · exact h

end Restful

/-! ## Code of expressions -/

namespace Emitted

variable {caller : Caller} {frame : Frame}

theorem restful_narrow (type : Ty) {c : Code .value}
    (h : Restful (eval caller frame c) fun _ => True) :
    Restful ((narrow type c).run caller frame) fun _ => True := by
  rw [run_narrow]
  exact h.andThen fun v => .ofExcept _

end Emitted

section Expressions

variable {σ : Setting} (caller : Caller) (frame : Frame)

/-- **Expressions.** The code of an expression that computes leaves the objects as they are. -/
theorem restful_run : ∀ (e : Expr) {c : Emitted}, Emits σ e c → e.computes = true →
    Restful (c.run caller frame) fun _ => True
  | .literal _, _, hc, _ => by
    cases hc with
    | str => exact .pure trivial
    | _ => exact .pure trivial
  | .slot _, _, .slot _, _ => Emitted.restful_narrow _ (.readLocal frame _)
  | .upvalue _, _, .upvalue _, _ => by
    refine Emitted.restful_narrow _ ?_
    rw [eval]
    exact (Restful.ofExcept _).andThen fun cell => .look fun m => .pure trivial
  | .global name, _, .global _, _ => by
    rw [Emitted.run_value, eval]
    exact .look fun m => .pure trivial
  | .binary op left right, _, .binary hl hr, h => by
    obtain ⟨hleft, hright⟩ := Bool.and_eq_true_iff.mp h
    rw [Emitted.run_binary op hl.fits hr.fits]
    exact (restful_run left hl hleft).andThen fun a =>
      (restful_run right hr hright).andThen fun b => .ofExcept _
  | .logical op left right, _, .logical hl hr, h => by
    obtain ⟨hleft, hright⟩ := Bool.and_eq_true_iff.mp h
    rw [Emitted.run_logical op hl.fits hr.fits]
    exact (restful_run left hl hleft).andThen fun a =>
      .shortCircuit op _ a (restful_run right hr hright)
  | .unary op operand, _, .unary hc, h => by
    rw [Emitted.run_unary op hc.fits]
    exact (restful_run operand hc h).andThen fun a => .look fun m => .ofExcept _
  | .index target key, _, hc, h => by
    obtain ⟨htarget, hkey⟩ := Bool.and_eq_true_iff.mp h
    cases hc with
    | field ht =>
      rw [Emitted.run_value, eval, Emitted.eval_boxed]
      exact (restful_run target ht htarget).andThen fun t => .look fun m => .ofExcept _
    | index ht hk =>
      rw [Emitted.run_value, eval, Emitted.eval_boxed, Emitted.eval_boxed]
      exact (restful_run target ht htarget).andThen fun t =>
        (restful_run key hk hkey).andThen fun k => .look fun m => .ofExcept _

theorem restful_evalAll : ∀ {es : List Expr} {cs : List Emitted}, EmitsAll σ es cs →
    es.all Expr.computes = true →
    Restful (evalAll caller frame (cs.map Emitted.boxed)) fun _ => True
  | _, _, .nil, _ => .pure trivial
  | _, _, .cons hc hcs, h => by
    obtain ⟨hfirst, hrest⟩ := Bool.and_eq_true_iff.mp (List.all_cons.symm.trans h)
    rw [List.map_cons, evalAll, Emitted.eval_boxed]
    exact (restful_run caller frame _ hc hfirst).andThen fun _ =>
      (restful_evalAll hcs hrest).andThen fun _ => .pure trivial

end Expressions

/-! ## Code of statements -/

namespace Frame

/-- No local is kept in a cell. -/
def IsPlain (frame : Frame) : Prop :=
  true ∉ frame.boxes

variable {frame : Frame}

theorem IsPlain.ne_shared (h : frame.IsPlain) {slot : Nat} {cell : CellId} :
    frame.locals[slot]? ≠ some (.shared cell) := by
  intro hslot
  refine h (List.mem_of_getElem? (i := slot) ?_)
  rw [boxes, List.getElem?_map, Array.getElem?_toList, hslot]
  rfl

theorem IsPlain.declare (h : frame.IsPlain) (heap : Heap) (slot : Nat) (v : Value) :
    (frame.declare heap slot v).1.IsPlain ∧ (frame.declare heap slot v).2 = heap := by
  refine ⟨by rw [IsPlain, boxes_declare]; exact h, ?_⟩
  unfold Frame.declare
  split
  · rfl
  · next hslot => exact (h.ne_shared hslot).elim
  · rfl

theorem IsPlain.write (h : frame.IsPlain) (heap : Heap) (slot : Nat) (v : Value) :
    (frame.write heap slot v).1.IsPlain ∧ (frame.write heap slot v).2 = heap := by
  refine ⟨by rw [IsPlain, boxes_write]; exact h, ?_⟩
  unfold Frame.write
  split
  · rfl
  · next hslot => exact (h.ne_shared hslot).elim
  · rfl

/-- Locals that are not captured start outside cells. -/
theorem openLocals_of_plain (heap : Heap) : ∀ {initial : List (Value × Bool)},
    (∀ x ∈ initial, x.2 = false) →
    openLocals heap initial = (initial.map fun x => .plain x.1, heap)
  | [], _ => rfl
  | (v, captured) :: rest, h => by
    obtain ⟨hfirst, hrest⟩ := List.forall_mem_cons.mp h
    obtain rfl : captured = false := hfirst
    simp [openLocals, openLocals_of_plain heap hrest]

end Frame

section Statements

variable {σ : Setting} (caller : Caller) (rounds : Nat)

theorem restful_declareLocal (slot : Nat) (v : Value) {frame : Frame} (h : frame.IsPlain) :
    Restful (declareLocal slot v frame) Frame.IsPlain := by
  intro m
  obtain ⟨hplain, hheap⟩ := h.declare m.heap slot v
  refine ⟨?_, ?_, fun hno => hno.elim⟩
  · show m.Rests (m.setHeap (frame.declare m.heap slot v).2)
    rw [hheap]
    exact .setHeap m
  · rintro _ ⟨⟩
    exact hplain

theorem restful_writeLocal (slot : Nat) (v : Value) {frame : Frame} (h : frame.IsPlain) :
    Restful (writeLocal slot v frame) Frame.IsPlain := by
  intro m
  obtain ⟨hplain, hheap⟩ := h.write m.heap slot v
  refine ⟨?_, ?_, fun hno => hno.elim⟩
  · show m.Rests (m.setHeap (frame.write m.heap slot v).2)
    rw [hheap]
    exact .setHeap m
  · rintro _ ⟨⟩
    exact hplain

mutual

/-- **Statements.** The code of a statement that computes leaves the objects as they are. -/
theorem restful_exec : ∀ {inLoop : Bool} (s : Stmt) {c : Step}, EmitsStmt σ inLoop s c →
    s.computes = true → ∀ {frame : Frame}, frame.IsPlain →
    Restful (exec caller rounds c frame) fun out => out.2.IsPlain
  | _, .declare slot value, _, hc, h, frame, hframe => by
    cases hc with
    | declare _ hc =>
      rw [exec, Emitted.eval_boxed]
      refine (restful_run caller frame _ hc h).andThen fun v => ?_
      exact (restful_declareLocal slot v hframe).bind fun frame' hframe' => .pure hframe'
    | declareNil =>
      rw [exec, eval, pure_bind]
      exact (restful_declareLocal slot .nil hframe).bind fun frame' hframe' => .pure hframe'
  | _, .assign slot value, _, .assign _ hc, h, frame, hframe => by
    rw [exec, Emitted.eval_boxed]
    refine (restful_run caller frame value hc h).andThen fun v => ?_
    exact (restful_writeLocal slot v hframe).bind fun frame' hframe' => .pure hframe'
  | _, .expr e, _, hc, h, frame, hframe => by
    cases hc with
    | call => cases h
    | discard hc =>
      rw [exec, Emitted.eval_boxed]
      exact (restful_run caller frame e hc h).andThen fun _ => .pure hframe
  | _, .branch cond thenBlock elseBlock, _, .branch hc ht he, h, frame, hframe => by
    obtain ⟨hcond, hblocks⟩ := Bool.and_eq_true_iff.mp h
    obtain ⟨hthen, helse⟩ := Bool.and_eq_true_iff.mp hblocks
    rw [exec, Emitted.eval_toTruth, bind_assoc]
    refine (restful_run caller frame cond hc hcond).andThen fun v => ?_
    rw [pure_bind]
    split
    · exact restful_execBlock thenBlock ht hthen hframe
    · exact restful_execBlock elseBlock he helse hframe
  | _, .ret values, _, hc, h, frame, hframe => by
    cases hc with
    | retCall => cases h
    | ret _ hcs =>
      rw [exec]
      exact (restful_evalAll caller frame hcs h).andThen fun _ => .pure hframe

theorem restful_execBlock : ∀ {inLoop : Bool} (block : List Stmt) {cs : List Step},
    EmitsBlock σ inLoop block cs → Stmt.blockComputes block = true →
    ∀ {frame : Frame}, frame.IsPlain →
    Restful (execBlock caller rounds cs frame) fun out => out.2.IsPlain
  | _, [], _, .nil, _, frame, hframe => .pure hframe
  | _, s :: rest, _, .cons hc hcs, h, frame, hframe => by
    obtain ⟨hfirst, hrest⟩ := Bool.and_eq_true_iff.mp h
    rw [execBlock]
    refine (restful_exec s hc hfirst hframe).bind fun out hout => ?_
    obtain ⟨flow, frame'⟩ := out
    cases flow with
    | normal => exact restful_execBlock rest hcs hrest hout
    | _ => exact .pure hout

end
end Statements

/-! ## Calls -/

/-- **Routines.** The code of a function that computes leaves the objects as they are. -/
theorem Specialization.restful_run {spec : Specialization} {σ : Setting} {returns : List Ty}
    (hvalid : spec.Valid σ returns) (h : σ.proto.computes = true) (again : Responder)
    (rounds : Nat) (engine : EngineId) (cells : List CellId) (args : List Value) :
    Restful (spec.run again rounds engine cells args) fun _ => True := by
  obtain ⟨hbody, hlocals⟩ := Bool.and_eq_true_iff.mp h
  have hinitial : ∀ x ∈ spec.initialLocals args, x.2 = false := by
    intro x hx
    obtain ⟨⟨captured, slot⟩, hmem, rfl⟩ := List.mem_map.mp hx
    have hcaptured := List.fst_mem_of_mem_zipIdx hmem
    rw [hvalid.captured] at hcaptured
    obtain ⟨decl, hdecl, rfl⟩ := List.mem_map.mp hcaptured
    simpa using List.all_eq_true.mp hlocals decl hdecl
  intro m
  unfold Specialization.run
  refine .of_get ?_
  dsimp only [frame]
  rw [Frame.openLocals_of_plain m.heap hinitial]
  refine .seq (.modify (.setHeap m)) fun _ m' _ _ => ?_
  refine (restful_execBlock _ rounds _ hvalid.emits hbody ?_).bind (fun _ _ => .pure trivial) m'
  simp [Frame.IsPlain, Frame.boxes, Variable.isShared]

namespace Linking

/-- A function that computes can be called through a site. -/
structure CanCompute (m : Machine) (id : Nat) (static : List Ty) (truncate : Bool)
    (ref : FunctionRef) (closure : Closure) (proto : Prototype) : Prop where
  sound : m.Sound
  site : m.sites.Has id static truncate
  callee : m.heap.closureOf? ref = some closure
  prototype : m.program.prototype? closure.proto = some proto
  computes : proto.computes = true

namespace CanCompute

variable {m : Machine} {id : Nat} {static : List Ty} {truncate : Bool} {ref : FunctionRef}
  {closure : Closure} {proto : Prototype} (h : CanCompute m id static truncate ref closure proto)
  (engine : EngineId) (args : List Value)

include h

/-- **Calls.** Once a call of a function that computes has got to its code, nothing changes. -/
theorem exists_rests (again : Responder) (rounds : Nat) :
    ∃ m₁, m.Prepares m₁ ∧ m₁.calls = (m.recordCall engine id (.function ref) args).calls ∧
      m₁.Rests ((invoke again rounds engine id (.function ref) args).run.run m).2 := by
  have hrecord := Machine.Prepares.recordCall h.sound engine id (.function ref) args
  obtain ⟨result, m₁, hdispatch, hprep, heq⟩ :=
    invoke_eq engine h.sound h.site (.function ref) args
  refine ⟨m₁, hprep, hdispatch.calls hrecord.sound h.site, ?_⟩
  rw [heq]
  cases result with
  | error stop => exact .refl m₁
  | ok start =>
    have hfunction : m₁.heap.function? ref = some (.closure closure) := by
      rw [hprep.heap]
      exact Heap.closureOf?_eq_some.mp h.callee
    cases hdispatch.serves hrecord.sound h.site with
    | routine hfound hspec hid _ _ _ _ =>
      rw [Heap.closureOf?_eq_some.mpr hfunction] at hfound
      cases hfound
      obtain ⟨proto', Γ, returns, hvalid⟩ := hspec
      have hsame : m₁.program.prototype? _ = some proto' := hvalid.proto
      rw [hprep.evolves.program, Program.prototype?, hid, ← Program.prototype?,
        h.prototype] at hsame
      cases hsame
      exact (Specialization.restful_run hvalid h.computes again rounds engine _ args m₁).evolves
    | overload _ hhost _ =>
      rw [Heap.overloads?_eq_some, hfunction] at hhost
      cases hhost
    | direct _ hforeign =>
      rw [hfunction] at hforeign
      cases hforeign

variable (depth : Nat)

/-- The only call is the one that is made. -/
theorem calls_call : ((Operation.call (depth + 1) (.site engine id (.function ref) args)).apply
    m).calls = (m.recordCall engine id (.function ref) args).calls := by
  obtain ⟨m₁, -, hcalls, hrests⟩ := h.exists_rests engine args (answer depth) depth
  exact hrests.calls.trans hcalls

/-- The function can be called again. -/
theorem call : CanCompute ((Operation.call (depth + 1)
    (.site engine id (.function ref) args)).apply m) id static truncate ref closure proto := by
  have hvalid : (Operation.call (depth + 1) (.site engine id (.function ref) args)).Valid m :=
    ⟨h.site.pos, h.site.le⟩
  obtain ⟨hsound, hgrows⟩ := Operation.advances h.sound hvalid
  exact ⟨hsound, hgrows.sites h.site, hgrows.heap.closureOf? h.callee,
    hgrows.program.prototype? h.prototype, h.computes⟩

/-- The call breaks no promise. -/
theorem fair_call (hfair : m.Fair) : ((Operation.call (depth + 1)
    (.site engine id (.function ref) args)).apply m).Fair := by
  obtain ⟨m₁, hprep, -, hrests⟩ := h.exists_rests engine args (answer depth) depth
  refine hrests.fair hprep.sound ⟨?_, ?_, ?_⟩
  · rw [hprep.evolves.program]
    exact hfair.assigned
  · rw [hprep.evolves.program, hprep.moments]
    exact hfair.kept.declared
  · rw [hprep.evolves.program, hprep.moments]
    exact hfair.kept.unwritten

end CanCompute
end Linking
end AdaptiveScript
