import AdaptiveScript.Proofs.Inference.Course

/-!
# What merges shapes

Analysis merges shapes in one place only: where a local that is fixed to one table type is
assigned another.  The local changes then, so an assignment that leaves its local as it is
merges nothing (`size_assign`).  Inference assigns no locals of its own.  It merges shapes
only by way of the analysis of another function, and that is how return types are found: if
it finds none, it merges nothing (`quiet_infer`).

So a pass that changes no local and finds no return types merges no shapes
(`Stage.Ok.size_walked`).
-/

namespace AdaptiveScript

/-! ## Finding return types -/

namespace Learn

variable {α β : Type}

/-- A computation forgets no return types. -/
def Keeps (x : Learn α) : Prop :=
  ∀ k : Knowledge, k.returns.length ≤ (x.run k).2.returns.length

/-- A computation forgets no return types, and if it finds none it merges no shapes. -/
def Quiet (x : Learn α) : Prop :=
  ∀ k : Knowledge, k.returns.length ≤ (x.run k).2.returns.length ∧
    ((x.run k).2.returns.length = k.returns.length →
      (x.run k).2.shapes.states.size = k.shapes.states.size)

theorem Keeps.pure (a : α) : Keeps (Pure.pure a) :=
  fun _ => Nat.le_refl _

theorem Keeps.bind {x : Learn α} {f : α → Learn β} (hx : x.Keeps) (hf : ∀ a, (f a).Keeps) :
    Keeps (x >>= f) :=
  fun k => Nat.le_trans (hx k) (hf (x.run k).1 (x.run k).2)

theorem Quiet.keeps {x : Learn α} (h : x.Quiet) : x.Keeps :=
  fun k => (h k).1

theorem Quiet.pure (a : α) : Quiet (Pure.pure a) :=
  fun _ => ⟨Nat.le_refl _, fun _ => rfl⟩

theorem Quiet.bind {x : Learn α} {f : α → Learn β} (hx : x.Quiet) (hf : ∀ a, (f a).Quiet) :
    Quiet (x >>= f) := by
  intro k
  obtain ⟨hle, hsize⟩ := hx k
  obtain ⟨hle', hsize'⟩ := hf (x.run k).1 (x.run k).2
  refine ⟨Nat.le_trans hle hle', fun hsame => ?_⟩
  have hlast : ((f (x.run k).1).run (x.run k).2).2.returns.length = k.returns.length := hsame
  exact (hsize' (by omega)).trans (hsize (by omega))

theorem keeps_note (event : Event) : Keeps (note event) :=
  fun _ => Nat.le_refl _

theorem quiet_amend (shape : ShapeId) (key : String) (type : Ty) : Quiet (amend shape key type) :=
  fun _ => ⟨Nat.le_refl _, fun _ => Shapes.size_amend shape key type⟩

theorem quiet_amendUnknown (shape : ShapeId) : Quiet (amendUnknown shape) :=
  fun _ => ⟨Nat.le_refl _, fun _ => Shapes.size_amendUnknown shape⟩

theorem quiet_tableType (shape : ShapeId) : Quiet (tableType shape) :=
  fun _ => ⟨Nat.le_refl _, fun _ => rfl⟩

theorem keeps_mergeShapes (a b : ShapeId) : Keeps (mergeShapes a b) :=
  fun k => Nat.le_of_eq (congrArg List.length (run_mergeShapes k a b).2.2).symm

end Learn

namespace Inference

open Learn (Keeps Quiet)

theorem quiet_callTypes {returnsOf : ReturnsOf} (hret : ∀ ref, Quiet (returnsOf ref))
    (callee : Ty) : Quiet (callTypes returnsOf callee) := by
  unfold callTypes
  split
  · exact (hret _).bind fun _ => .pure _
  · exact .pure _

mutual

/-- Inference merges shapes only where it finds return types. -/
theorem quiet_infer {returnsOf : ReturnsOf} (hret : ∀ ref, Quiet (returnsOf ref))
    (ctx : Inference) : ∀ e : Expr, Quiet (infer returnsOf ctx e)
  | .literal _ => by rw [infer]; exact .pure _
  | .slot _ => by rw [infer]; exact .pure _
  | .upvalue _ => by rw [infer]; exact .pure _
  | .global _ => by rw [infer]; exact .pure _
  | .binary _ left right => by
    rw [infer]
    exact (quiet_infer hret ctx left).bind fun _ => (quiet_infer hret ctx right).bind fun _ =>
      .pure _
  | .logical _ left right => by
    rw [infer]
    exact (quiet_infer hret ctx left).bind fun _ => (quiet_infer hret ctx right).bind fun _ =>
      .pure _
  | .unary _ operand => by
    rw [infer]
    exact (quiet_infer hret ctx operand).bind fun _ => .pure _
  | .index target key => by
    rw [infer]
    exact (quiet_infer hret ctx target).bind fun _ => (quiet_infer hret ctx key).bind fun _ =>
      .pure _
  | .call callee args => by
    rw [infer]
    exact (quiet_infer hret ctx callee).bind fun type => (quiet_inferAll hret ctx args).bind
      fun _ => (quiet_callTypes hret type).bind fun _ => .pure _
  | .function _ _ => by rw [infer]; exact .pure _
  | .table shape entries => by
    rw [infer]
    exact (quiet_inferEntries hret ctx shape entries).bind fun _ => Learn.quiet_tableType shape

theorem quiet_inferAll {returnsOf : ReturnsOf} (hret : ∀ ref, Quiet (returnsOf ref))
    (ctx : Inference) : ∀ es : List Expr, Quiet (inferAll returnsOf ctx es)
  | [] => by rw [inferAll]; exact .pure _
  | e :: es => by
    rw [inferAll]
    exact (quiet_infer hret ctx e).bind fun _ => (quiet_inferAll hret ctx es).bind fun _ => .pure _

theorem quiet_inferEntries {returnsOf : ReturnsOf} (hret : ∀ ref, Quiet (returnsOf ref))
    (ctx : Inference) (shape : ShapeId) :
    ∀ entries : List Entry, Quiet (inferEntries returnsOf ctx shape entries)
  | [] => by rw [inferEntries]; exact .pure _
  | .named name value :: rest => by
    rw [inferEntries]
    exact (quiet_infer hret ctx value).bind fun type => (Learn.quiet_amend shape name type).bind
      fun _ => quiet_inferEntries hret ctx shape rest
  | .keyed key value :: rest => by
    rw [inferEntries]
    cases key.constantKey? with
    | some name =>
      exact (quiet_infer hret ctx value).bind fun type => (Learn.quiet_amend shape name type).bind
        fun _ => quiet_inferEntries hret ctx shape rest
    | none =>
      exact (quiet_infer hret ctx key).bind fun _ => (quiet_infer hret ctx value).bind fun _ =>
        (Learn.quiet_amendUnknown shape).bind fun _ => quiet_inferEntries hret ctx shape rest
  | .positional value :: rest => by
    rw [inferEntries]
    exact (quiet_infer hret ctx value).bind fun _ => (Learn.quiet_amendUnknown shape).bind fun _ =>
      quiet_inferEntries hret ctx shape rest

end

section

variable {returnsOf : ReturnsOf} (hret : ∀ ref, Quiet (returnsOf ref)) (ctx : Inference)

include hret

theorem quiet_inferReturn (values : List Expr) : Quiet (inferReturn returnsOf ctx values) := by
  have hforwarded (e : Expr) : Quiet (inferForwarded returnsOf ctx e) := by
    cases e with
    | call callee args =>
      exact (quiet_infer hret ctx callee).bind fun type => (quiet_inferAll hret ctx args).bind
        fun _ => (quiet_callTypes hret type).bind fun _ => .pure _
    | _ => exact (quiet_infer hret ctx _).bind fun _ => .pure _
  unfold inferReturn
  split
  · exact hforwarded _
  · exact quiet_inferAll hret ctx _

theorem quiet_inferStep (step : Option Expr) : Quiet (inferStep returnsOf ctx step) := by
  cases step with
  | none => exact .pure _
  | some e => exact quiet_infer hret ctx e

end

/-! ## Passes forget no return types -/

theorem keeps_assigned (type : Ty) (var : VarState) : Keeps (assigned type var) := by
  unfold assigned
  split
  · exact .pure _
  · exact .pure _
  · split
    · exact .pure _
    · split
      · next a b _ _ =>
        refine Keeps.bind (Learn.keeps_mergeShapes a b) fun merged => ?_
        cases merged with
        | none => exact .pure _
        | some rep => exact (Learn.quiet_tableType rep).keeps.bind fun _ => .pure _
      · exact .pure _

theorem keeps_assign (ctx : Inference) (slot : Nat) (type : Ty) : Keeps (ctx.assign slot type) := by
  unfold assign
  split
  · exact .pure _
  · exact (keeps_assigned type _).bind fun _ => .pure _

section

variable {returnsOf : ReturnsOf} (hret : ∀ ref, Quiet (returnsOf ref))

include hret

/-- A visit forgets no return types. -/
theorem keeps_visit (ctx : Inference) (s : Stmt) : Keeps (walk returnsOf s.bare ctx) := by
  have hinfer (e : Expr) : Keeps (infer returnsOf ctx e) := (quiet_infer hret ctx e).keeps
  cases s <;> simp only [Stmt.bare, walk, walkBlock]
  case declare slot value =>
    cases value with
    | none => exact keeps_assign ctx slot .nil
    | some e => exact (hinfer e).bind (keeps_assign ctx slot)
  case assign slot e => exact (hinfer e).bind (keeps_assign ctx slot)
  case setUpvalue e => exact (hinfer e).bind fun _ => .pure _
  case setGlobal e => exact (hinfer e).bind fun _ => .pure _
  case setIndex target key value =>
    exact (hinfer target).bind fun _ => (hinfer key).bind fun _ => (hinfer value).bind fun _ =>
      .pure _
  case expr e => exact (hinfer e).bind fun _ => .pure _
  case branch cond _ _ => exact (hinfer cond).bind fun _ => .pure _
  case whileLoop cond _ => exact (hinfer cond).bind fun _ => .pure _
  case forLoop slot start limit step _ =>
    exact (hinfer start).bind fun _ => (hinfer limit).bind fun _ =>
      (quiet_inferStep hret ctx step).keeps.bind fun _ => (keeps_assign ctx slot _).bind fun _ =>
        .pure _
  case ret values => exact (quiet_inferReturn hret ctx values).keeps.bind fun _ => .pure _
  case breakLoop => exact .pure _

theorem length_visits (stmts : List Stmt) (stage : Stage) :
    stage.2.returns.length ≤ (stmts.foldl (visit returnsOf) stage).2.returns.length := by
  induction stmts generalizing stage with
  | nil => exact Nat.le_refl _
  | cons s rest ih => exact Nat.le_trans (keeps_visit hret stage.1 s stage.2) (ih _)

theorem keeps_walkBody (body : List Stmt) (ctx : Inference) :
    Keeps (walkBody returnsOf body ctx) := by
  refine Keeps.bind (fun k => ?_) fun _ => .pure _
  rw [run_walkBlock]
  exact length_visits hret (Stmt.blockListed body) (Stage.opened (ctx, k))

theorem keeps_analyzeFrom (body : List Stmt) (remaining done : Nat) (ctx : Inference) :
    Keeps (analyzeFrom returnsOf body remaining done ctx) := by
  induction remaining generalizing done ctx with
  | zero =>
    rw [analyzeFrom]
    exact (Learn.keeps_note _).bind fun _ => keeps_walkBody hret body _
  | succ remaining ih =>
    rw [analyzeFrom]
    refine (keeps_walkBody hret body ctx).bind fun next => ?_
    split
    · exact (Learn.keeps_note _).bind fun _ => .pure _
    · exact ih (done + 1) next

/-- Return types that are known are looked up, and if they have to be found there are more of
them afterwards. -/
theorem quiet_findReturns (maxIterations : Nat) (proto : Prototype) :
    Quiet (findReturns returnsOf maxIterations proto) := by
  intro k
  cases hlookup : k.returns.lookup proto.ref.id with
  | some types =>
    rw [run_findReturns_of_known hlookup]
    exact ⟨Nat.le_refl _, fun _ => rfl⟩
  | none =>
    have hle := keeps_analyzeFrom hret proto.body (weakest proto maxIterations).maxIterations 0
      (weakest proto maxIterations) k
    rw [run_findReturns_of_none hlookup, analyze]
    simp only [List.length_cons]
    exact ⟨by omega, fun hsame => by omega⟩

end

theorem quiet_returnTypesBelow (program : Program) (maxIterations bound : Nat)
    (ref : PrototypeRef) : Quiet (returnTypesBelow program maxIterations bound ref) := by
  induction bound generalizing ref with
  | zero => exact .pure _
  | succ bound ih =>
    rw [returnTypesBelow]
    split
    · split
      · exact quiet_findReturns ih maxIterations _
      · exact .pure _
    · exact ih ref

/-- Asking for return types merges shapes only if they have to be found. -/
theorem quiet_returnTypesOf (program : Program) (maxIterations : Nat) (ref : PrototypeRef) :
    Quiet (returnTypesOf program maxIterations ref) :=
  quiet_returnTypesBelow program maxIterations program.size ref

/-! ## Assignments -/

/-- Merging that leaves a shape as its own representative merges no shapes: shapes are merged
into a new one. -/
theorem size_mergeShapes_of_resolve {k : Knowledge} (hf : k.shapes.Forest) {a b rep : Nat}
    (ha : k.shapes.Has a) (hb : k.shapes.Has b)
    (hrep : ((Learn.mergeShapes a b).run k).1 = some rep)
    (hsame : ((Learn.mergeShapes a b).run k).2.shapes.resolve rep = a) :
    ((Learn.mergeShapes a b).run k).2.shapes.states.size = k.shapes.states.size := by
  obtain ⟨hresult, hshapes, -⟩ := Learn.run_mergeShapes k a b
  rw [hresult] at hrep
  rw [hshapes] at hsame ⊢
  refine (Shapes.size_merge_or k.shapes a b).resolve_right fun hnew => ?_
  rw [hrep, Option.some.injEq] at hnew
  have hle := (Shapes.evolves_merge hf ha hb).1.forest.le_resolve rep
  rw [hsame, hnew] at hle
  exact Nat.not_succ_le_self _ (Nat.le_trans hle ha.2)

/-- An assignment that leaves the state of its local as it is merges no shapes. -/
theorem size_assigned {k : Knowledge} (hf : k.shapes.Forest) {type : Ty} (htype : type.Has k.shapes)
    {var : VarState} (hvar : ∀ current, var = .fixed current → current.Has k.shapes)
    (hsame : ((assigned type var).run k).1 = var) :
    ((assigned type var).run k).2.shapes.states.size = k.shapes.states.size := by
  cases var with
  | unassigned => rfl
  | conflicted => rfl
  | fixed current =>
    revert hsame
    simp only [assigned]
    split
    · exact fun _ => rfl
    · split
      · next a b ha hb =>
        cases current <;> cases ha
        cases type <;> cases hb
        have hbind (f : Option ShapeId → Learn VarState) : (Learn.mergeShapes a b >>= f).run k =
            (f ((Learn.mergeShapes a b).run k).1).run ((Learn.mergeShapes a b).run k).2 := rfl
        rw [hbind]
        cases hrep : ((Learn.mergeShapes a b).run k).1 with
        | none => exact fun hsame => by cases hsame
        | some rep =>
          -- the local takes the representative, and that is the shape it had
          intro hsame
          refine size_mergeShapes_of_resolve hf (hvar _ rfl) htype hrep ?_
          injection hsame with htable
          injection htable
      · exact fun _ => rfl

theorem size_assign {k : Knowledge} (hf : k.shapes.Forest) {ctx : Inference}
    (hctx : ctx.Has k.shapes) (slot : Nat) {type : Ty} (htype : type.Has k.shapes)
    (hvars : ((ctx.assign slot type).run k).1.vars = ctx.vars) :
    ((ctx.assign slot type).run k).2.shapes.states.size = k.shapes.states.size := by
  revert hvars
  unfold assign
  cases hvar : ctx.vars[slot]? with
  | none => exact fun _ => rfl
  | some var =>
    have hslot : slot < ctx.vars.size := (Array.getElem?_eq_some_iff.1 hvar).1
    have hstate : ctx.varState slot = var := by rw [varState, hvar, Option.getD_some]
    intro hvars
    refine size_assigned hf htype (fun current heq => hctx.vars (hstate.trans heq)) ?_
    have hset : ctx.vars.setIfInBounds slot ((assigned type var).run k).1 = ctx.vars := hvars
    have hnext := congrArg (·[slot]?) hset
    rw [hvar, Array.getElem?_setIfInBounds_self_of_lt hslot, Option.some.injEq] at hnext
    exact hnext

/-! ## Passes -/

namespace Stage

/-- No return types are forgotten between two stages, and if none are found and no local
changes, no shapes are merged. -/
structure Still (stage next : Stage) : Prop where
  length_le : stage.2.returns.length ≤ next.2.returns.length
  size : next.1.vars = stage.1.vars → next.2.returns.length = stage.2.returns.length →
    next.2.shapes.states.size = stage.2.shapes.states.size

theorem Still.of_quiet {α : Type} {x : Learn α} (hx : x.Quiet) {stage next : Stage}
    (h : Still (stage.1, (x.run stage.2).2) next) : stage.Still next := by
  obtain ⟨hle, hsize⟩ := hx stage.2
  have hrest := h.length_le
  dsimp only at hrest
  refine ⟨by omega, fun hvars hsame => ?_⟩
  exact (h.size hvars (by dsimp only; omega)).trans (hsize (by omega))

theorem Still.of_vars (ctx : Inference) (k : Knowledge) (next : Inference) :
    Still (ctx, k) (next, k) :=
  ⟨Nat.le_refl _, fun _ _ => rfl⟩

variable {program : Program} {bound : Nat} {returnsOf : ReturnsOf} {base : Shapes} {stage : Stage}

theorem Ok.still_assign (h : stage.Ok program base) (slot : Nat) {type : Ty}
    (htype : type.Has stage.2.shapes) : stage.Still ((stage.1.assign slot type).run stage.2) :=
  ⟨keeps_assign stage.1 slot type stage.2,
    fun hvars _ => size_assign h.sound.forest h.has slot htype hvars⟩

section

variable (hret : returnsOf.Sound program bound) (hquiet : ∀ ref, Quiet (returnsOf ref))

include hret hquiet

theorem Ok.still_inferAssign (h : stage.Ok program base) (slot : Nat) {e : Expr}
    (he : e.Scoped program base) :
    stage.Still ((infer returnsOf stage.1 e >>= stage.1.assign slot).run stage.2) := by
  obtain ⟨hok, htype⟩ := h.inferred hret he
  exact .of_quiet (quiet_infer hquiet stage.1 e) (hok.still_assign slot htype)

theorem Ok.still_visit (h : stage.Ok program base) {s : Stmt} (hs : s.Scoped program base) :
    stage.Still (Inference.visit returnsOf stage s) := by
  have hinfer := quiet_infer hquiet stage.1
  cases s with
  | declare slot value =>
    cases value with
    | none => exact h.still_assign slot trivial
    | some e => exact h.still_inferAssign hret hquiet slot (hs e (List.mem_cons_self ..))
  | assign slot e => exact h.still_inferAssign hret hquiet slot (hs e (List.mem_cons_self ..))
  | forLoop slot start limit step body =>
    have hstart := (h.inferred hret (hs start (by simp [Stmt.operands]))).1
    have hlimit := (hstart.inferred hret (hs limit (by simp [Stmt.operands]))).1
    have hstep := hlimit.inferredStep hret (fun e (he : e ∈ step.toList) =>
      hs e (by simp [Stmt.operands, he]))
    exact .of_quiet (hinfer start) (.of_quiet (hinfer limit)
      (.of_quiet (quiet_inferStep hquiet stage.1 step) (hstep.still_assign slot (has_loopType ..))))
  | ret values => exact .of_quiet (quiet_inferReturn hquiet stage.1 values) (.of_vars ..)
  | setUpvalue _ e => exact .of_quiet (hinfer e) (.of_vars ..)
  | setGlobal _ e => exact .of_quiet (hinfer e) (.of_vars ..)
  | setIndex target key value =>
    exact .of_quiet (hinfer target) (.of_quiet (hinfer key) (.of_quiet (hinfer value)
      (.of_vars ..)))
  | expr e => exact .of_quiet (hinfer e) (.of_vars ..)
  | branch cond _ _ => exact .of_quiet (hinfer cond) (.of_vars ..)
  | whileLoop cond _ => exact .of_quiet (hinfer cond) (.of_vars ..)
  | breakLoop => exact .of_vars ..

theorem Ok.still_visits (stmts : List Stmt) (h : stage.Ok program base)
    (hscope : ∀ s ∈ stmts, s.Scoped program base) :
    stage.Still (stmts.foldl (Inference.visit returnsOf) stage) := by
  induction stmts generalizing stage with
  | nil => exact .of_vars ..
  | cons s rest ih =>
    have hs := hscope s (List.mem_cons_self ..)
    have hrest : ∀ t ∈ rest, t.Scoped program base :=
      fun t ht => hscope t (List.mem_cons_of_mem _ ht)
    have hok := h.visit hret hs
    have hfirst := h.still_visit hret hquiet hs
    have hlast := ih hok hrest
    have hle := hfirst.length_le
    have hle' := hlast.length_le
    rw [List.foldl_cons]
    refine ⟨Nat.le_trans hle hle', fun hvars hsame => ?_⟩
    -- a local that is as it was has not changed in between
    have hmid := (h.follows_visit hret hs).vars_eq (hok.follows_visits hret rest hrest) hvars
    rw [hlast.size (hvars.trans hmid.symm) (by omega), hfirst.size hmid (by omega)]

/-- A pass that changes no local and finds no return types merges no shapes. -/
theorem Ok.size_walked (h : stage.Ok program base) {body : List Stmt}
    (hscope : Stmt.BlockEvery (Stmt.Scoped program base) body)
    (hvars : (stage.walked returnsOf body).1.vars = stage.1.vars)
    (hreturns : (stage.walked returnsOf body).2.returns.length = stage.2.returns.length) :
    (stage.walked returnsOf body).2.shapes.states.size = stage.2.shapes.states.size := by
  have hstill := h.opened.still_visits hret hquiet _ (Stmt.blockEvery_iff.mp hscope)
  rw [vars_walked] at hvars
  rw [walked_eq] at hreturns ⊢
  exact hstill.size hvars hreturns

end
end Stage
end Inference
end AdaptiveScript
