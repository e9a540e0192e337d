import AdaptiveScript.Proofs.Run.EmittedTypes
import AdaptiveScript.Proofs.Run.LoopRounds
import AdaptiveScript.Proofs.Run.TypedOperators
import Mathlib.Data.List.Forall2

/-!
# How bodies end

A run of a body that meets no error ends in one of three ways: it reaches the end of the body, it
returns, or it breaks off.  The last never happens, since a break outside loops is not compiled,
and the first only if the body can be left at its end, which is read off its last statement
(`Stmt.blockFallsThrough`).

The reading looks at no statement but the last, although a break may skip it and a loop may end
before it.  It is right because breaks skip no further than to the end of a loop, and a loop is
never the last word on its block.  So the proof follows the source: the code of a statement ends in
the ways that the source admits (`Emit.endsAs_stmt`), and a loop passes on nothing but returns,
however many rounds it has (`LoopRounds.ending`).  If a run returns, its very last step is the code
of a return statement (`Ending.ret`).

Return types are found on the same reading.  They are the types of the return statements, joined in
the order of the text, and those of the empty return at the end of the body only if the body can be
left there (`Inference.exists_returns_analyzeFrom`).
-/

namespace AdaptiveScript

/-! ## Return statements -/

namespace Stmt

/-- What a return statement returns. -/
def returned? : Stmt → Option (List Expr)
  | .ret values => some values
  | _ => none

theorem returned?_eq_some {s : Stmt} {values : List Expr} :
    s.returned? = some values ↔ s = .ret values := by
  cases s <;> simp [returned?]

/-- What the return statements of a block return, in the order of the text. -/
def blockReturns (block : List Stmt) : List (List Expr) :=
  (blockListed block).filterMap returned?

theorem mem_blockReturns {block : List Stmt} {values : List Expr} :
    values ∈ blockReturns block ↔ .ret values ∈ blockListed block := by
  simp only [blockReturns, List.mem_filterMap, returned?_eq_some, exists_eq_right]

end Stmt

/-- Code that a return statement may have been turned into. -/
def Scope.EmitsReturn (scope : Scope) (values : List Expr) (code : Step) : Prop :=
  ∃ s s', (Emit.ret scope values).run.run s = (.ok code, s')

/-! ## Ways to end -/

section Ways

variable (scope : Scope) (caller : Caller) (rounds : Nat)

/-- How a run of code has ended, given whether control can fall through the code, whether it stands
in a loop, and which statements stand in its source. -/
structure Ending (through inLoop : Bool) (inside : List Stmt) (out : Flow × Frame)
    (m : Machine) : Prop where
  normal : out.1 = .normal → through = true
  leave : out.1 = .leave → inLoop = true
  ret : ∀ values, out.1 = .ret values → ∃ es, .ret es ∈ inside ∧ ∃ code,
    scope.EmitsReturn es code ∧
      ∃ frame₀ m₀, (exec caller rounds code frame₀).run.run m₀ = (.ok out, m)

/-- Whatever code starts from, it ends in the given ways. -/
def EndsAs (through inLoop : Bool) (inside : List Stmt) (x : Frame → Run (Flow × Frame)) : Prop :=
  ∀ ⦃frame : Frame⦄ ⦃m : Machine⦄ ⦃out : Flow × Frame⦄ ⦃m' : Machine⦄,
    (x frame).run.run m = (.ok out, m') → Ending scope caller rounds through inLoop inside out m'

end Ways

section

variable {scope : Scope} {caller : Caller} {rounds : Nat} {through inLoop : Bool}
  {inside wider : List Stmt}

theorem Ending.mono {through' inLoop' : Bool} {out : Flow × Frame} {m : Machine}
    (h : Ending scope caller rounds through inLoop inside out m)
    (hthrough : through = true → through' = true) (hloop : inLoop = true → inLoop' = true)
    (hinside : inside ⊆ wider) : Ending scope caller rounds through' inLoop' wider out m := by
  refine ⟨fun heq => hthrough (h.normal heq), fun heq => hloop (h.leave heq), fun values heq => ?_⟩
  obtain ⟨es, hmem, hcode⟩ := h.ret values heq
  exact ⟨es, hinside hmem, hcode⟩

/-- Nothing else happens than going on with the next statement. -/
theorem Ending.of_normal {out : Flow × Frame} (h : out.1 = .normal) (m : Machine) :
    Ending scope caller rounds true inLoop inside out m := by
  refine ⟨fun _ => rfl, fun heq => ?_, fun values heq => ?_⟩
  · cases h.symm.trans heq
  · cases h.symm.trans heq

/-! ## Loops -/

/-- A loop passes on nothing but returns. -/
theorem LoopRounds.ending {σ : Type} {turn : Turn σ} {body : Frame → Run (Flow × Frame)}
    (hbody : EndsAs scope caller rounds through inLoop inside body) {s : σ} {c : Frame × Machine}
    {starts : List (Frame × Machine)} {r : Except Stop (Flow × Frame) × Machine}
    (h : LoopRounds turn body s c starts r) : ∀ ⦃out : Flow × Frame⦄ ⦃m : Machine⦄,
      r = (.ok out, m) → Ending scope caller rounds true false inside out m := by
  induction h with
  | finished =>
    rintro _ _ ⟨⟩
    exact .of_normal rfl _
  | stopped =>
    rintro _ _ ⟨⟩
  | next _ _ _ ih => exact ih
  | @last _ _ c d result m₁ _ hround hnot =>
    intro out m hr
    obtain ⟨hlast, rfl⟩ := Prod.mk.inj hr
    cases result with
    | error stop => cases hlast
    | ok found =>
      obtain ⟨flow, frame⟩ := found
      cases flow with
      | normal => exact absurd rfl (hnot frame)
      | leave =>
        cases hlast
        exact .of_normal rfl _
      | ret values =>
        cases hlast
        refine ⟨fun _ => rfl, ?_, (hbody hround).ret⟩
        rintro ⟨⟩

/-! ## Emitted code -/

/-- Code without blocks that does not leave its block. -/
def Step.isStraight : Step → Bool
  | .branch _ _ _ => false
  | .whileLoop _ _ => false
  | .forLoop _ _ _ => false
  | .ret _ => false
  | .retCall _ => false
  | .breakLoop => false
  | _ => true

theorem endsAs_of_isStraight {s : Step} (h : s.isStraight = true) :
    EndsAs scope caller rounds true inLoop inside (exec caller rounds s) := by
  have hnormal (frame : Frame) :
      Delivers (exec caller rounds s frame) fun out => out.1 = .normal := by
    cases s with
    | declare | assign =>
      rw [exec]
      exact .andThen fun _ => .andThen fun _ => .pure rfl
    | setUpvalue =>
      rw [exec]
      exact .andThen fun _ => .andThen fun _ => .andThen fun _ => .andThen fun _ => .pure rfl
    | setGlobal =>
      rw [exec]
      exact .andThen fun _ => .andThen fun _ => .pure rfl
    | setField =>
      rw [exec]
      exact .andThen fun _ => .andThen fun _ => .andThen fun _ => .andThen fun _ =>
        .andThen fun _ => .pure rfl
    | setIndex =>
      rw [exec]
      exact .andThen fun _ => .andThen fun _ => .andThen fun _ => .andThen fun _ =>
        .andThen fun _ => .andThen fun _ => .pure rfl
    | discard | call =>
      rw [exec]
      exact .andThen fun _ => .pure rfl
    | _ => cases h
  exact fun frame m out m' hrun => .of_normal (hnormal frame hrun) m'

namespace Emit

/-- The code of a return statement returns. -/
theorem endsAs_ret (values : List Expr) : Delivers (ret scope values) fun c =>
    EndsAs scope caller rounds false inLoop [.ret values] (exec caller rounds c) := by
  have hshape : Delivers (ret scope values) fun c =>
      ∀ frame, Delivers (exec caller rounds c frame) fun out => ∃ vs, out.1 = .ret vs := by
    unfold ret
    split
    · refine .andThen fun _ => .andThen fun _ => .andThen fun _ => .andThen fun _ =>
        .pure fun frame => ?_
      rw [exec]
      exact .andThen fun vs => .pure ⟨vs, rfl⟩
    · refine .andThen fun _ => .pure fun frame => ?_
      rw [exec]
      exact .andThen fun vs => .pure ⟨vs, rfl⟩
  intro s c s' hemit frame m out m' hrun
  obtain ⟨vs, hvs⟩ := hshape hemit frame hrun
  refine ⟨fun heq => ?_, fun heq => ?_, fun _ _ => ?_⟩
  · cases hvs.symm.trans heq
  · cases hvs.symm.trans heq
  · exact ⟨values, List.mem_singleton_self _, c, ⟨s, s', hemit⟩, frame, m, hrun⟩

theorem endsAs_discard (e : Expr) : Delivers (discard scope e) fun c =>
    EndsAs scope caller rounds true inLoop inside (exec caller rounds c) := by
  unfold discard
  split
  · exact .andThen fun _ => .andThen fun _ => .andThen fun _ => .pure (endsAs_of_isStraight rfl)
  · exact .andThen fun _ => .pure (endsAs_of_isStraight rfl)

variable (scope caller rounds)

mutual

/-- The code of a statement ends in the ways that the statement admits. -/
theorem endsAs_stmt (inLoop : Bool) : ∀ s : Stmt, Delivers (stmt scope inLoop s) fun c =>
    EndsAs scope caller rounds s.fallsThrough inLoop s.listed (exec caller rounds c)
  | .declare _ (some _) => by
    rw [stmt]
    exact .andThen fun _ => .andThen fun _ => .andThen fun _ => .pure (endsAs_of_isStraight rfl)
  | .declare _ none => by
    rw [stmt]
    exact .andThen fun _ => .andThen fun _ => .pure (endsAs_of_isStraight rfl)
  | .assign _ _ => by
    rw [stmt]
    exact .andThen fun _ => .andThen fun _ => .andThen fun _ => .pure (endsAs_of_isStraight rfl)
  | .setUpvalue _ _ => by
    rw [stmt]
    exact .andThen fun _ => .andThen fun _ => .andThen fun _ => .pure (endsAs_of_isStraight rfl)
  | .setGlobal _ _ => by
    rw [stmt]
    exact .andThen fun _ => .andThen fun _ => .pure (endsAs_of_isStraight rfl)
  | .setIndex _ _ _ => by
    rw [stmt]
    refine .andThen fun _ => .andThen fun _ => .andThen fun field => ?_
    cases field with
    | some f => exact .andThen fun _ => .pure (endsAs_of_isStraight rfl)
    | none => exact .andThen fun _ => .andThen fun _ => .pure (endsAs_of_isStraight rfl)
  | .expr e => by
    rw [stmt]
    exact .andThen fun _ => endsAs_discard e
  | .branch cond thenBlock elseBlock => by
    rw [stmt]
    refine .andThen fun _ => .andThen fun c => ?_
    refine (endsAs_block inLoop thenBlock).bind fun t ht => ?_
    refine (endsAs_block inLoop elseBlock).bind fun e he => .pure ?_
    intro frame m out m' hrun
    rw [exec] at hrun
    rw [Stmt.fallsThrough, Stmt.listed]
    obtain ⟨holds, m₁, -, hrest⟩ := exists_of_run_bind hrun
    cases holds with
    | true =>
      refine (ht hrest).mono (fun h => by rw [h, Bool.true_or]) id ?_
      exact List.Subset.trans (List.subset_append_left _ _) (List.subset_cons_self _ _)
    | false =>
      refine (he hrest).mono (fun h => by rw [h, Bool.or_true]) id ?_
      exact List.Subset.trans (List.subset_append_right _ _) (List.subset_cons_self _ _)
  | .whileLoop cond body => by
    rw [stmt]
    refine .andThen fun _ => .andThen fun c => ?_
    refine (endsAs_block true body).bind fun b hb => .pure ?_
    intro frame m out m' hrun
    rw [exec] at hrun
    rw [Stmt.listed]
    obtain ⟨starts, hrounds⟩ := exists_loopRounds_whileLoop (fun f => eval caller f c.toTruth)
      (fun f => execBlock caller rounds b f) rounds frame m
    exact (hrounds.ending hb hrun).mono id (fun h => by cases h) (List.subset_cons_self _ _)
  | .forLoop slot start limit step body => by
    rw [stmt]
    refine .andThen fun _ => .andThen fun _ => .andThen fun s => .andThen fun l =>
      .andThen fun d => ?_
    refine (endsAs_block true body).bind fun b hb => .pure ?_
    intro frame m out m' hrun
    rw [exec] at hrun
    rw [Stmt.listed]
    obtain ⟨range, m₁, -, hrest⟩ := exists_of_run_bind hrun
    obtain ⟨starts, hrounds⟩ := exists_loopRounds_rangeLoop slot
      (fun f => execBlock caller rounds b f) rounds range frame m₁
    exact (hrounds.ending hb hrest).mono id (fun h => by cases h) (List.subset_cons_self _ _)
  | .ret values => by
    rw [stmt]
    exact .andThen fun _ => endsAs_ret values
  | .breakLoop => by
    rw [stmt]
    refine .andThen fun _ => ?_
    split
    · next hloop =>
      refine .pure fun frame m out m' hrun => ?_
      rw [exec] at hrun
      cases hrun
      refine ⟨fun _ => rfl, fun _ => hloop, ?_⟩
      rintro values ⟨⟩
    · exact .throw

/-- The code of a block ends in the ways that the block admits. -/
theorem endsAs_block (inLoop : Bool) : ∀ block : List Stmt, Delivers (Emit.block scope inLoop block)
    fun cs => EndsAs scope caller rounds (Stmt.blockFallsThrough block) inLoop
      (Stmt.blockListed block) (execBlock caller rounds cs)
  | [] => by
    rw [block]
    refine .pure fun frame m out m' hrun => ?_
    rw [execBlock] at hrun
    cases hrun
    exact .of_normal rfl _
  | s :: rest => by
    rw [block]
    refine (endsAs_stmt inLoop s).bind fun c hc => ?_
    refine (endsAs_block inLoop rest).bind fun cs hcs => .pure ?_
    intro frame m out m' hrun
    rw [execBlock] at hrun
    rw [Stmt.blockListed]
    obtain ⟨⟨flow, frame₁⟩, m₁, hfirst, hrest⟩ := exists_of_run_bind hrun
    have hends := hc hfirst
    cases flow with
    | normal =>
      -- the last statement decides, be it this one or a later one
      refine (hcs hrest).mono (fun h => ?_) id (List.subset_append_right _ _)
      cases rest with
      | nil => exact hends.normal rfl
      | cons next rest => exact h
    | leave =>
      cases hrest
      refine ⟨?_, hends.leave, ?_⟩
      · rintro ⟨⟩
      · rintro values ⟨⟩
    | ret values =>
      cases hrest
      refine ⟨?_, ?_, (hends.mono id id (List.subset_append_left _ _)).ret⟩
      · rintro ⟨⟩
      · rintro ⟨⟩

end

end Emit
end

/-! ## Return types -/

namespace Inference

/-- The types of the returns met so far, when one more is met. -/
def joined : Option (List Ty) → List Ty → Option (List Ty)
  | none, types => some types
  | some existing, types => some (joinReturns existing types)

theorem returns_recordReturn (ctx : Inference) (types : List Ty) :
    (ctx.recordReturn types).returns = joined ctx.returns types := by
  unfold recordReturn
  cases ctx.returns <;> rfl

theorem foldl_joined_some (existing : List Ty) (others : List (List Ty)) :
    others.foldl joined (some existing) = some (others.foldl joinReturns existing) := by
  induction others generalizing existing with
  | nil => rfl
  | cons types others ih => exact ih (joinReturns existing types)

/-- At one of some stages, inference finds the given types for what is returned. -/
def InfersReturn (returnsOf : ReturnsOf) (stages : List Stage) (values : List Expr)
    (types : List Ty) : Prop :=
  ∃ stage ∈ stages, ((inferReturn returnsOf stage.1 values).run stage.2).1 = types

theorem InfersReturn.mono {returnsOf : ReturnsOf} {stages more : List Stage} {values : List Expr}
    {types : List Ty} (h : InfersReturn returnsOf stages values types) (hsub : stages ⊆ more) :
    InfersReturn returnsOf more values types := by
  obtain ⟨stage, hmem, htypes⟩ := h
  exact ⟨stage, hsub hmem, htypes⟩

/-- The empty return at the end of a body, if it can be reached. -/
def returnAtEnd (body : List Stmt) : List (List Ty) :=
  if Stmt.blockFallsThrough body then [[]] else []

section

variable (returnsOf : ReturnsOf)

/-- No visit but that of a return statement changes the return types. -/
theorem returns_visit (stage : Stage) {s : Stmt} (h : s.returned? = none) :
    (visit returnsOf stage s).1.returns = stage.1.returns := by
  have hassign (ctx : Inference) (slot : Nat) (type : Ty) (k : Knowledge) :
      ((ctx.assign slot type).run k).1.returns = ctx.returns := by
    unfold assign
    cases ctx.vars[slot]? <;> rfl
  cases s with
  | declare slot value =>
    cases value with
    | none => exact hassign _ _ _ _
    | some e => exact hassign _ _ _ _
  | assign slot value => exact hassign _ _ _ _
  | forLoop slot start limit step body => exact hassign _ _ _ _
  | ret values => cases h
  | _ => rfl

/-- Visiting some statements joins the types of the return statements among them. -/
theorem exists_returns_foldl (stmts : List Stmt) (stage : Stage) : ∃ types : List (List Ty),
    List.Forall₂ (InfersReturn returnsOf (stmts.scanl (visit returnsOf) stage))
      (stmts.filterMap Stmt.returned?) types ∧
    (stmts.foldl (visit returnsOf) stage).1.returns = types.foldl joined stage.1.returns := by
  induction stmts generalizing stage with
  | nil => exact ⟨[], .nil, rfl⟩
  | cons s rest ih =>
    obtain ⟨types, hinfers, hreturns⟩ := ih (visit returnsOf stage s)
    have hlater : List.Forall₂ (InfersReturn returnsOf ((s :: rest).scanl (visit returnsOf) stage))
        (rest.filterMap Stmt.returned?) types := by
      refine hinfers.imp fun _ _ h => h.mono ?_
      rw [List.scanl_cons]
      exact List.subset_cons_self _ _
    cases hs : s.returned? with
    | none =>
      refine ⟨types, ?_, ?_⟩
      · rw [List.filterMap_cons_none hs]
        exact hlater
      · rw [List.foldl_cons, hreturns, returns_visit returnsOf stage hs]
    | some values =>
      obtain rfl := Stmt.returned?_eq_some.mp hs
      refine ⟨((inferReturn returnsOf stage.1 values).run stage.2).1 :: types, ?_, ?_⟩
      · rw [List.filterMap_cons_some hs]
        refine .cons ⟨stage, ?_, rfl⟩ hlater
        rw [List.scanl_cons]
        exact List.mem_cons_self ..
      · rw [List.foldl_cons, hreturns, List.foldl_cons, ← returns_recordReturn]
        rfl

variable (body : List Stmt)

/-- A pass joins the types of the return statements of the body, and those of the empty return at
its end if it can be reached. -/
theorem exists_returns_walked (stage : Stage) : ∃ types : List (List Ty),
    List.Forall₂ (InfersReturn returnsOf (pass returnsOf body stage)) (Stmt.blockReturns body)
      types ∧
    (stage.walked returnsOf body).1.returns = (types ++ returnAtEnd body).foldl joined none := by
  obtain ⟨types, hinfers, hreturns⟩ :=
    exists_returns_foldl returnsOf (Stmt.blockListed body) stage.opened
  refine ⟨types, hinfers, ?_⟩
  rw [walked_eq, List.foldl_append, returnAtEnd]
  dsimp only
  split
  · rw [returns_recordReturn, hreturns]
    rfl
  · exact hreturns

/-- The return types of an analysis are those of its last pass. -/
theorem exists_returns_analyzeFrom (remaining done : Nat) (stage : Stage) :
    ∃ types : List (List Ty),
      List.Forall₂ (InfersReturn returnsOf (course returnsOf body remaining stage))
        (Stmt.blockReturns body) types ∧
      ((analyzeFrom returnsOf body remaining done stage.1).run stage.2).1.returns =
        (types ++ returnAtEnd body).foldl joined none := by
  induction remaining generalizing done stage with
  | zero =>
    obtain ⟨types, hinfers, hreturns⟩ := exists_returns_walked returnsOf body stage.widened
    refine ⟨types, hinfers.imp fun _ _ h => h.mono ?_, hreturns⟩
    rw [course]
    exact List.subset_cons_self _ _
  | succ remaining ih =>
    rw [course]
    by_cases h : (stage.walked returnsOf body).1.vars = stage.1.vars
    · rw [if_pos h, run_analyzeFrom_of_eq returnsOf body h]
      exact exists_returns_walked returnsOf body stage
    · rw [if_neg h, run_analyzeFrom_of_ne returnsOf body h]
      obtain ⟨types, hinfers, hreturns⟩ := ih (done + 1) (stage.walked returnsOf body)
      exact ⟨types, hinfers.imp fun _ _ h => h.mono (List.subset_append_right _ _), hreturns⟩

end

end Inference

mutual

/-- A statement after which control cannot go on has a return inside it. -/
theorem Stmt.exists_ret_of_not_fallsThrough : ∀ {s : Stmt}, s.fallsThrough = false →
    ∃ values, .ret values ∈ s.listed
  | .ret values, _ => ⟨values, List.mem_cons_self ..⟩
  | .branch cond thenBlock elseBlock, h => by
    rw [fallsThrough, Bool.or_eq_false_iff] at h
    obtain ⟨values, hmem⟩ := exists_ret_of_not_blockFallsThrough h.1
    refine ⟨values, ?_⟩
    rw [listed]
    exact List.mem_cons_of_mem _ (List.mem_append_left _ hmem)

/-- A block that cannot be left at its end has a return inside it. -/
theorem Stmt.exists_ret_of_not_blockFallsThrough : ∀ {block : List Stmt},
    blockFallsThrough block = false → ∃ values, .ret values ∈ blockListed block
  | [s], h => by
    obtain ⟨values, hmem⟩ := exists_ret_of_not_fallsThrough (s := s) h
    refine ⟨values, ?_⟩
    rw [blockListed]
    exact List.mem_append_left _ hmem
  | s :: next :: rest, h => by
    have hrest : blockFallsThrough (next :: rest) = false := h
    obtain ⟨values, hmem⟩ := exists_ret_of_not_blockFallsThrough hrest
    refine ⟨values, ?_⟩
    rw [blockListed]
    exact List.mem_append_right _ hmem

end

/-! ## Compiled functions -/

namespace Compile

/-- The stages of the analysis with which a compilation begins. -/
def stages (program : Program) (proto : Prototype) (signature : Signature)
    (maxIterations : Nat) (k : Knowledge) : List Inference.Stage :=
  let start := Inference.ofTypes proto signature.args signature.upvalues maxIterations
  Inference.course (Inference.returnTypesOf program start.maxIterations) proto.body
    start.maxIterations (start, k)

/-- What a compilation that succeeds puts together: the code of the body and the return types that
the analysis has found. -/
theorem emits_of_compile {m m' : Machine} {engine : EngineId} {proto : Prototype}
    {signature : Signature} {spec : Specialization}
    (hcompile : (compile engine proto signature).run.run m = (.ok spec, m')) :
    let found := (analysis m.program proto signature
      (m.engine engine).config.maxInferenceIterations m.knowledge).1
    spec.returns = Specialization.visibleReturns signature found.returnTypes ∧
      ∃ s s', (Emit.block ⟨m.program, found⟩ false proto.body).run.run s = (.ok spec.body, s') := by
  intro found
  unfold compile at hcompile
  rw [run_get_bind] at hcompile
  dsimp only at hcompile
  rw [run_bind, run_emit, run_body] at hcompile
  dsimp only [start] at hcompile
  rw [run_bind] at hcompile
  generalize hblock : (Emit.block _ false proto.body).run.run _ = r at hcompile
  obtain ⟨result, s'⟩ := r
  cases result with
  | error error => cases hcompile
  | ok steps =>
    cases hcompile
    exact ⟨rfl, _, s', hblock⟩

end Compile

/-- **Bodies end as they read.**  Let a function be compiled in any machine, and let its body run
without an error, whatever the frame and the machine it starts in and whatever the calls on the way
do.  The run does not end with a break, and it reaches the end of the body only if the body can be
left there by the reading of its last statement.

So if the body cannot be left at its end, every run of the function ends with the code of one of
its return statements, which gives the results.  There is at least one such statement, and the
return types of the function are the types of these statements, joined in the order of the text,
with no empty return among them. -/
theorem endings_of_compile {m m' : Machine} {engine : EngineId} {proto : Prototype}
    {signature : Signature} {spec : Specialization}
    (hcompile : (Compile.compile engine proto signature).run.run m = (.ok spec, m')) :
    let limit := (m.engine engine).config.maxInferenceIterations
    let scope : Scope := ⟨m.program, (Compile.analysis m.program proto signature limit
      m.knowledge).1⟩
    (∀ {caller : Caller} {rounds : Nat} {frame frame' : Frame} {flow : Flow} {m₁ m₂ : Machine},
      (execBlock caller rounds spec.body frame).run.run m₁ = (.ok (flow, frame'), m₂) →
        flow ≠ .leave ∧ (flow = .normal → Stmt.blockFallsThrough proto.body = true)) ∧
    (Stmt.blockFallsThrough proto.body = false →
      (∀ {again : Responder} {rounds : Nat} {home : EngineId} {cells : List CellId}
        {args results : List Value} {m₁ m₂ : Machine},
        (spec.run again rounds home cells args).run.run m₁ = (.ok results, m₂) →
        ∃ es ∈ Stmt.blockReturns proto.body, ∃ code, scope.EmitsReturn es code ∧
          ∃ values frame₀ frame' m₀,
            (exec (fun engine site callee args => again (.site engine site callee args)) rounds
              code frame₀).run.run m₀ = (.ok (.ret values, frame'), m₂) ∧
            results = spec.visibleResults values) ∧
      ∃ first others, List.Forall₂
          (Inference.InfersReturn scope.returnsOf
            (Compile.stages m.program proto signature limit m.knowledge))
          (Stmt.blockReturns proto.body) (first :: others) ∧
        spec.returns =
          Specialization.visibleReturns signature (others.foldl Inference.joinReturns first)) := by
  intro limit scope
  obtain ⟨hreturns, s, s', hemit⟩ := Compile.emits_of_compile hcompile
  have hends {caller : Caller} {rounds : Nat} {frame : Frame} {out : Flow × Frame}
      {m₁ m₂ : Machine}
      (hrun : (execBlock caller rounds spec.body frame).run.run m₁ = (.ok out, m₂)) :
      Ending scope caller rounds (Stmt.blockFallsThrough proto.body) false
        (Stmt.blockListed proto.body) out m₂ :=
    Emit.endsAs_block scope caller rounds false proto.body hemit hrun
  have hleave {caller : Caller} {rounds : Nat} {frame frame' : Frame} {flow : Flow}
      {m₁ m₂ : Machine}
      (hrun : (execBlock caller rounds spec.body frame).run.run m₁ = (.ok (flow, frame'), m₂)) :
      flow ≠ .leave := by
    intro heq
    cases (hends hrun).leave heq
  refine ⟨fun hrun => ⟨hleave hrun, (hends hrun).normal⟩, fun hthrough => ⟨?_, ?_⟩⟩
  · intro again rounds home cells args results m₁ m₂ hrun
    obtain ⟨heap, m₃, -, hrest⟩ := exists_of_run_bind hrun
    obtain ⟨_, m₄, -, hrest⟩ := exists_of_run_bind hrest
    obtain ⟨⟨flow, frame'⟩, m₅, hbody, hlast⟩ := exists_of_run_bind hrest
    cases hlast
    cases flow with
    | normal => cases hthrough.symm.trans ((hends hbody).normal rfl)
    | leave => exact absurd rfl (hleave hbody)
    | ret values =>
      obtain ⟨es, hes, code, hcode, frame₀, m₀, hexec⟩ := (hends hbody).ret values rfl
      exact ⟨es, Stmt.mem_blockReturns.mpr hes, code, hcode, values, frame₀, frame', m₀, hexec, rfl⟩
  · obtain ⟨types, hinfers, hjoined⟩ := Inference.exists_returns_analyzeFrom
      (Inference.returnTypesOf m.program (max limit 1)) proto.body (max limit 1) 0
      (Inference.ofTypes proto signature.args signature.upvalues limit, m.knowledge)
    cases types with
    | nil =>
      obtain ⟨es, hes⟩ := Stmt.exists_ret_of_not_blockFallsThrough hthrough
      have hmem := Stmt.mem_blockReturns.mpr hes
      rw [List.forall₂_nil_right_iff.mp hinfers] at hmem
      cases hmem
    | cons first others =>
      refine ⟨first, others, ?_, ?_⟩
      · have hlimit : scope.types.maxIterations = max limit 1 :=
          Inference.maxIterations_analyze ..
        unfold Scope.returnsOf
        rw [hlimit]
        exact hinfers
      · have hfound : scope.types.returns = some (others.foldl Inference.joinReturns first) := by
          refine Eq.trans hjoined ?_
          rw [Inference.returnAtEnd, hthrough, ← Inference.foldl_joined_some]
          simp [Inference.joined]
        rw [hreturns, Inference.returnTypes]
        exact congrArg (fun found => Specialization.visibleReturns signature (found.getD [])) hfound

/-- A loop that is left by a break or a return, and two more returns after it. -/
def Stmt.breakOrReturn : List Stmt :=
  [.whileLoop (.literal (.bool true))
      [.branch (.slot 0) [.breakLoop] [.ret [.literal (.int 1)]], .ret [.literal (.int 2)]],
    .branch (.slot 0) [.ret [.literal (.int 3)]] [.ret [.literal (.int 4)]]]

/-- The break skips the return at the end of the loop, and the run ends with the third of four
returns.  The result is known to be an integer, which it would not be if the end of the body
counted as a return. -/
theorem endings_of_compile_breakOrReturn :
    let proto := Prototype.ofParts ⟨1, "pick"⟩ ["c"] [] [] Stmt.breakOrReturn
    let again : Responder := fun _ => throw .exhausted
    Stmt.blockFallsThrough proto.body = false ∧ ∃ spec m' m₂,
      (Compile.compile 0 proto ⟨[.boolean], [], false⟩).run.run .empty = (.ok spec, m') ∧
      spec.returns = [.integer] ∧
      (spec.run again 1 0 [] [.bool true]).run.run m' = (.ok [.int 3], m₂) ∧
      ∃ es ∈ Stmt.blockReturns proto.body, ∃ code frame₀ frame' m₀,
        (exec (fun engine site callee args => again (.site engine site callee args)) 1 code
          frame₀).run.run m₀ = (.ok (.ret [.int 3], frame'), m₂) ∧
        ∃ scope : Scope, scope.EmitsReturn es code := by
  intro proto again
  have hthrough : Stmt.blockFallsThrough proto.body = false := by decide
  generalize hmade : (Compile.compile 0 proto ⟨[.boolean], [], false⟩).run.run .empty = made
  have hruns : made.1.toOption.map (fun spec => (spec.returns, spec.signature.truncate,
      ((spec.run again 1 0 [] [.bool true]).run.run made.2).1)) =
      some ([.integer], false, .ok [.int 3]) := by
    rw [← hmade]
    decide +kernel
  obtain ⟨result, m'⟩ := made
  cases result with
  | error error => cases hruns
  | ok spec =>
    simp only [Except.toOption, Option.map_some, Option.some.injEq, Prod.mk.injEq] at hruns
    obtain ⟨hreturns, htruncate, hresults⟩ := hruns
    generalize hrun : (spec.run again 1 0 [] [.bool true]).run.run m' = ran at hresults
    obtain ⟨result, m₂⟩ := ran
    cases hresults
    obtain ⟨es, hes, code, hcode, values, frame₀, frame', m₀, hexec, hvalues⟩ :=
      ((endings_of_compile hmade).2 hthrough).1 hrun
    rw [Specialization.visibleResults, htruncate] at hvalues
    cases hvalues
    exact ⟨hthrough, spec, m', m₂, rfl, hreturns, hrun, es, hes, code, frame₀, frame', m₀, hexec,
      _, hcode⟩

end AdaptiveScript
