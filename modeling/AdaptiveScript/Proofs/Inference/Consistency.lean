import AdaptiveScript.Proofs.Inference.Merging

/-!
# Consistency of what analysis finds

The result of an analysis is consistent (`Consistent`) if the types that inference gives under
it are the types it says: each assigned value has the type of its local, each return has the
return types, and another pass changes nothing.

The last pass of an analysis leaves every local as it is, so each type that it infers is
inferred under the result.  What may differ afterwards is the shapes.  A type that was
inferred is inferred again as long as no shapes are merged (`Learn.Recalls`), so the result is
consistent if the last pass merges none (`consistent_of_size`).  An assignment that merges
shapes changes its local, so what is left is the analysis of another function whose return
types are asked for by the last pass and not by any pass before (`size_walked`).  That one may
merge a shape that the last pass has already named, and then the result is not consistent.
-/

namespace AdaptiveScript
namespace Inference

/-! ## What inference depends on -/

mutual

/-- Inference depends on the types of locals and upvalues alone. -/
theorem infer_congr (returnsOf : ReturnsOf) {ctx other : Inference}
    (h : ctx.typing = other.typing) :
    ∀ e : Expr, infer returnsOf ctx e = infer returnsOf other e
  | .literal _ => by rw [infer, infer]
  | .slot index => by
    have hslot : ctx.varType index = other.varType index := congrArg (·.slot index) h
    rw [infer, infer, hslot]
  | .upvalue index => by
    have hupvalue : ctx.upvalueType index = other.upvalueType index :=
      congrArg (·.upvalue index) h
    rw [infer, infer, hupvalue]
  | .global _ => by rw [infer, infer]
  | .binary _ left right => by
    rw [infer, infer, infer_congr returnsOf h left, infer_congr returnsOf h right]
  | .logical _ left right => by
    rw [infer, infer, infer_congr returnsOf h left, infer_congr returnsOf h right]
  | .unary _ operand => by rw [infer, infer, infer_congr returnsOf h operand]
  | .index target key => by
    rw [infer, infer, infer_congr returnsOf h target, infer_congr returnsOf h key]
  | .call callee args => by
    rw [infer, infer, infer_congr returnsOf h callee, inferAll_congr returnsOf h args]
  | .function _ _ => by rw [infer, infer]
  | .table shape entries => by rw [infer, infer, inferEntries_congr returnsOf h shape entries]

theorem inferAll_congr (returnsOf : ReturnsOf) {ctx other : Inference}
    (h : ctx.typing = other.typing) :
    ∀ es : List Expr, inferAll returnsOf ctx es = inferAll returnsOf other es
  | [] => by rw [inferAll, inferAll]
  | e :: es => by
    rw [inferAll, inferAll, infer_congr returnsOf h e, inferAll_congr returnsOf h es]

theorem inferEntries_congr (returnsOf : ReturnsOf) {ctx other : Inference}
    (h : ctx.typing = other.typing) (shape : ShapeId) : ∀ entries : List Entry,
      inferEntries returnsOf ctx shape entries = inferEntries returnsOf other shape entries
  | [] => by rw [inferEntries, inferEntries]
  | .named _ value :: rest => by
    rw [inferEntries, inferEntries, infer_congr returnsOf h value,
      inferEntries_congr returnsOf h shape rest]
  | .keyed key value :: rest => by
    rw [inferEntries, inferEntries, infer_congr returnsOf h key, infer_congr returnsOf h value,
      inferEntries_congr returnsOf h shape rest]
  | .positional value :: rest => by
    rw [inferEntries, inferEntries, infer_congr returnsOf h value,
      inferEntries_congr returnsOf h shape rest]

end

section

variable (returnsOf : ReturnsOf) {ctx other : Inference} (h : ctx.typing = other.typing)

include h

theorem inferReturn_congr (values : List Expr) :
    inferReturn returnsOf ctx values = inferReturn returnsOf other values := by
  have hforwarded (e : Expr) :
      inferForwarded returnsOf ctx e = inferForwarded returnsOf other e := by
    cases e with
    | call callee args =>
      rw [inferForwarded, inferForwarded, infer_congr returnsOf h, inferAll_congr returnsOf h]
    | _ => simp only [inferForwarded, infer_congr returnsOf h]
  unfold inferReturn
  split
  · exact hforwarded _
  · exact inferAll_congr returnsOf h _

theorem inferStep_congr (step : Option Expr) :
    inferStep returnsOf ctx step = inferStep returnsOf other step := by
  cases step with
  | none => rfl
  | some e => exact infer_congr returnsOf h e

end

/-- Two analyses that agree on all that passes look at. -/
structure Agrees (ctx other : Inference) : Prop where
  proto : ctx.proto = other.proto
  vars : ctx.vars = other.vars
  upvalues : ctx.upvalueTypes = other.upvalueTypes
  returns : ctx.returns = other.returns

namespace Agrees

variable {ctx other : Inference}

theorem typing (h : ctx.Agrees other) : ctx.typing = other.typing :=
  typing_congr h.proto h.upvalues h.vars

theorem assign (h : ctx.Agrees other) (slot : Nat) (type : Ty) (k : Knowledge) :
    ((ctx.assign slot type).run k).1.Agrees ((other.assign slot type).run k).1 ∧
      ((ctx.assign slot type).run k).2 = ((other.assign slot type).run k).2 := by
  unfold Inference.assign
  rw [h.vars]
  cases other.vars[slot]? with
  | none => exact ⟨h, rfl⟩
  | some var => exact ⟨⟨h.proto, rfl, h.upvalues, h.returns⟩, rfl⟩

theorem recordReturn (h : ctx.Agrees other) (types : List Ty) :
    (ctx.recordReturn types).Agrees (other.recordReturn types) :=
  ⟨h.proto, h.vars, h.upvalues, by rw [Inference.recordReturn, Inference.recordReturn, h.returns]⟩

end Agrees

/-- A visit depends on what passes look at. -/
theorem visit_congr (returnsOf : ReturnsOf) {ctx other : Inference} (h : ctx.Agrees other)
    (k : Knowledge) (s : Stmt) :
    (visit returnsOf (ctx, k) s).1.Agrees (visit returnsOf (other, k) s).1 ∧
      (visit returnsOf (ctx, k) s).2 = (visit returnsOf (other, k) s).2 := by
  have hinfer := infer_congr returnsOf h.typing
  unfold visit
  cases s with
  | declare slot value =>
    cases value with
    | none => exact h.assign slot .nil k
    | some e =>
      simp only [Stmt.bare, walk, hinfer]
      exact h.assign slot _ _
  | assign slot e =>
    simp only [Stmt.bare, walk, hinfer]
    exact h.assign slot _ _
  | forLoop slot start limit step body =>
    simp only [Stmt.bare, walk, hinfer, inferStep_congr returnsOf h.typing]
    exact h.assign slot _ _
  | ret values =>
    simp only [Stmt.bare, walk, inferReturn_congr returnsOf h.typing]
    exact ⟨h.recordReturn _, rfl⟩
  | _ =>
    simp only [Stmt.bare, walk, walkBlock, hinfer]
    exact ⟨h, rfl⟩

theorem foldl_visit_congr (returnsOf : ReturnsOf) (stmts : List Stmt) {ctx other : Inference}
    (h : ctx.Agrees other) (k : Knowledge) :
    (stmts.foldl (visit returnsOf) (ctx, k)).1.Agrees
      (stmts.foldl (visit returnsOf) (other, k)).1 := by
  induction stmts generalizing ctx other k with
  | nil => exact h
  | cons s rest ih =>
    obtain ⟨hvisit, hknowledge⟩ := visit_congr returnsOf h k s
    have hrest := ih hvisit (visit returnsOf (ctx, k) s).2
    rw [List.foldl_cons, List.foldl_cons]
    rwa [show visit returnsOf (other, k) s = ((visit returnsOf (other, k) s).1,
      (visit returnsOf (ctx, k) s).2) from Prod.ext rfl hknowledge.symm]

/-- A pass forgets the return types that there were. -/
theorem walked_congr (returnsOf : ReturnsOf) (body : List Stmt) {ctx other : Inference}
    (hproto : ctx.proto = other.proto) (hvars : ctx.vars = other.vars)
    (hupvalues : ctx.upvalueTypes = other.upvalueTypes) (k : Knowledge) :
    (Stage.walked returnsOf body (ctx, k)).1.Agrees (Stage.walked returnsOf body (other, k)).1 := by
  have hopened : (Stage.opened (ctx, k)).1.Agrees (Stage.opened (other, k)).1 :=
    ⟨hproto, hvars, hupvalues, rfl⟩
  have hlast := foldl_visit_congr returnsOf (Stmt.blockListed body) hopened k
  rw [walked_eq, walked_eq]
  dsimp only
  split
  · exact hlast.recordReturn []
  · exact hlast

/-! ## Consistency -/

/-- A local reads as unknown, or it is fixed to a type, shapes being compared by their
representatives. -/
def Admits (ctx : Inference) (shapes : Shapes) (slot : Nat) (type : Ty) : Prop :=
  ctx.varType slot = .unknown ∨ ∃ current, ctx.varState slot = .fixed current ∧
    current.canonical shapes = type.canonical shapes

/-- A statement fits the result of an analysis: the type that inference gives for the value it
assigns is that of its local, and the types it gives for the values it returns are the return
types.  The statements in its blocks are not looked at. -/
def Fits (returnsOf : ReturnsOf) (stage : Stage) : Stmt → Prop
  | .declare slot (some e) =>
    stage.1.Admits stage.2.shapes slot ((infer returnsOf stage.1 e).run stage.2).1
  | .declare slot none => stage.1.Admits stage.2.shapes slot .nil
  | .assign slot e =>
    stage.1.Admits stage.2.shapes slot ((infer returnsOf stage.1 e).run stage.2).1
  | .forLoop slot start limit step _ =>
    stage.1.Admits stage.2.shapes slot (Ty.loopType ((infer returnsOf stage.1 start).run stage.2).1
      ((infer returnsOf stage.1 limit).run stage.2).1
      ((inferStep returnsOf stage.1 step).run stage.2).1)
  | .ret values =>
    Covers stage.1.returnTypes ((inferReturn returnsOf stage.1 values).run stage.2).1
  | _ => True

/-- The result of an analysis says what inference finds under it: every statement fits, the
end of the body returns nothing, and another pass changes neither locals nor return types. -/
structure Consistent (returnsOf : ReturnsOf) (body : List Stmt) (stage : Stage) : Prop where
  fits : Stmt.BlockEvery (Fits returnsOf stage) body
  atEnd : Stmt.blockFallsThrough body = true → Covers stage.1.returnTypes []
  vars : (stage.walked returnsOf body).1.vars = stage.1.vars
  returns : (stage.walked returnsOf body).1.returns = stage.1.returns

theorem Admits.mono {ctx : Inference} {before after : Shapes} (hev : before.Evolves after)
    (hb : before.Forest) {slot : Nat} {type : Ty} (h : ctx.Admits before slot type) :
    ctx.Admits after slot type :=
  h.imp_right fun ⟨current, hstate, hsame⟩ =>
    ⟨current, hstate, Ty.canonical_congr hev.grows hb hev.forest hsame⟩

/-- What an assignment found that changed nothing. -/
theorem admits_assign {program : Program} {stage : Stage} (h : stage.2.Sound program)
    (hctx : stage.1.Has stage.2.shapes) (slot : Nat) {type : Ty} (htype : type.Has stage.2.shapes)
    (hvars : ((stage.1.assign slot type).run stage.2).1.vars = stage.1.vars) :
    stage.1.Admits ((stage.1.assign slot type).run stage.2).2.shapes slot type := by
  have hassign : Learn.Gives program 0 _ _ _ := gives_assign h hctx slot htype
  have hmoves : Learn.Gives program 0 _ _ _ := gives_assign_moves h hctx slot htype
  obtain ⟨-, -, htakes⟩ := hassign.post
  have hassigned := hmoves.post.1.ne_unassigned
  rw [varState, hvars, ← varState] at hassigned
  have hread := stage.1.varType_eq_or slot
  cases hstate : stage.1.varState slot with
  | unassigned => exact absurd hstate hassigned
  | conflicted =>
    rw [hstate] at hread
    exact .inl (hread.elim id id)
  | fixed current =>
    rw [hstate] at hread
    rcases hread with hunknown | hread
    · exact .inl hunknown
    · refine (htakes hvars).imp_right fun hsame => ⟨current, hstate, ?_⟩
      rw [← hsame]
      exact congrArg _ hread.symm

/-! ## Stages of the last pass -/

namespace Stage

/-- The result of an analysis, seen from a stage of its last pass: the locals are as they will
be, the return types so far are covered, and no shapes are merged from here on. -/
structure Leads (program : Program) (stage final : Stage) : Prop where
  evolves : stage.2.Evolves program final.2
  size : final.2.shapes.states.size = stage.2.shapes.states.size
  proto : final.1.proto = stage.1.proto
  upvalues : final.1.upvalueTypes = stage.1.upvalueTypes
  vars : final.1.vars = stage.1.vars
  returns : ∀ types, stage.1.returns = some types → Covers final.1.returnTypes types

namespace Leads

variable {program : Program} {stage mid last final : Stage}

theorem typing (h : stage.Leads program final) : final.1.typing = stage.1.typing :=
  typing_congr h.proto h.upvalues h.vars

theorem varState (h : stage.Leads program final) (slot : Nat) :
    final.1.varState slot = stage.1.varState slot := by
  rw [Inference.varState, h.vars, ← Inference.varState]

/-- A stage between two that lead to the result leads there as well: states of locals do not
come back, and the number of shapes does not go down. -/
theorem between (hfirst : stage.Follows program mid) (hsecond : mid.Follows program last)
    (h : stage.Leads program final) (hlast : last.Leads program final) :
    mid.Leads program final where
  evolves := hsecond.evolves.trans hlast.evolves
  size := by
    have hearly := hfirst.evolves.grows.shapes.size_le
    have hlate := (hsecond.evolves.trans hlast.evolves).grows.shapes.size_le
    have hsize := h.size
    omega
  proto := h.proto.trans hfirst.advances.proto.symm
  upvalues := h.upvalues.trans hfirst.advances.upvalues.symm
  vars := h.vars.trans (hfirst.vars_eq hsecond (hlast.vars.symm.trans h.vars)).symm
  returns types htypes := by
    obtain ⟨wider, hwider, hcovers⟩ := hsecond.advances.returns types htypes
    exact (hlast.returns wider hwider).trans hcovers

/-- The same analysis with more knowledge. -/
theorem later (h : stage.Leads program final) {k : Knowledge} (hev : stage.2.Evolves program k)
    (hrest : k.Evolves program final.2) : Leads program (stage.1, k) final where
  evolves := hrest
  size := by
    show final.2.shapes.states.size = k.shapes.states.size
    have hearly := hev.grows.shapes.size_le
    have hlate := hrest.grows.shapes.size_le
    have hsize := h.size
    omega
  proto := h.proto
  upvalues := h.upvalues
  vars := h.vars
  returns := h.returns

end Leads

variable {program : Program} {bound : Nat} {returnsOf : ReturnsOf} {base : Shapes}
  {stage final : Stage}

/-- The type that was inferred in the last pass is inferred under the result. -/
theorem Leads.infer_eq (hret : returnsOf.Sound program bound) (h : stage.Ok program base)
    (hlead : stage.Leads program final) {e : Expr} (he : e.Scoped program base)
    (hev : ((infer returnsOf stage.1 e).run stage.2).2.Evolves program final.2) :
    ((infer returnsOf final.1 e).run final.2).1 = ((infer returnsOf stage.1 e).run stage.2).1 ∧
      Leads program (stage.1, ((infer returnsOf stage.1 e).run stage.2).2) final := by
  have hinfer := gives_infer hret stage.1 e h.sound h.has.typing (he.mono h.grows)
  rw [infer_congr returnsOf hlead.typing]
  exact ⟨(hinfer.recalls final.2 hev hlead.size).1, hlead.later hinfer.evolves hev⟩

theorem Leads.inferStep_eq (hret : returnsOf.Sound program bound) (h : stage.Ok program base)
    (hlead : stage.Leads program final) {step : Option Expr}
    (hstep : ∀ e ∈ step.toList, e.Scoped program base)
    (hev : ((inferStep returnsOf stage.1 step).run stage.2).2.Evolves program final.2) :
    ((inferStep returnsOf final.1 step).run final.2).1 =
        ((inferStep returnsOf stage.1 step).run stage.2).1 ∧
      Leads program (stage.1, ((inferStep returnsOf stage.1 step).run stage.2).2) final := by
  cases step with
  | none => exact ⟨rfl, hlead⟩
  | some e => exact hlead.infer_eq hret h (hstep e (by simp)) hev

/-- What is known under the result has grown from what was known before an assignment. -/
theorem Leads.evolves_of_assign (h : stage.Ok program base) {slot : Nat} {type : Ty}
    (htype : type.Has stage.2.shapes)
    (hafter : Leads program ((stage.1.assign slot type).run stage.2) final) :
    stage.2.Evolves program final.2 := by
  have hassign : Learn.Gives program 0 _ _ _ := gives_assign h.sound h.has slot htype
  exact hassign.evolves.trans hafter.evolves

/-- The local that was assigned in the last pass admits the type under the result. -/
theorem Leads.admits (h : stage.Ok program base) (hlead : stage.Leads program final) {slot : Nat}
    {type : Ty} (htype : type.Has stage.2.shapes)
    (hafter : Leads program ((stage.1.assign slot type).run stage.2) final) :
    final.1.Admits final.2.shapes slot type := by
  have hassign : Learn.Gives program 0 _ _ _ := gives_assign h.sound h.has slot htype
  have hadmits := (admits_assign h.sound h.has slot htype
    (hafter.vars.symm.trans hlead.vars)).mono (evolves_shapes hafter.evolves)
    hassign.evolves.sound.forest
  have hread : final.1.varType slot = stage.1.varType slot := congrArg (·.slot slot) hlead.typing
  rw [Admits, hread, hlead.varState slot]
  exact hadmits

/-- A value that was assigned in the last pass has the type of its local under the result. -/
theorem Leads.admits_inferred (hret : returnsOf.Sound program bound) (h : stage.Ok program base)
    (hlead : stage.Leads program final) {e : Expr} (he : e.Scoped program base) {slot : Nat}
    (hafter : Leads program ((infer returnsOf stage.1 e >>= stage.1.assign slot).run stage.2)
      final) :
    final.1.Admits final.2.shapes slot ((infer returnsOf final.1 e).run final.2).1 := by
  obtain ⟨hok, htype⟩ := h.inferred hret he
  obtain ⟨hsame, hlead₁⟩ := hlead.infer_eq hret h he (evolves_of_assign hok htype hafter)
  rw [hsame]
  exact hlead₁.admits hok htype hafter

/-- The variable of a numeric loop, which takes its type from three operands. -/
theorem Leads.admits_loop (hret : returnsOf.Sound program bound) (h : stage.Ok program base)
    (hlead : stage.Leads program final) {slot : Nat} {start limit : Expr} {step : Option Expr}
    {body : List Stmt} (hs : (Stmt.forLoop slot start limit step body).Scoped program base)
    (hafter : (Inference.visit returnsOf stage (.forLoop slot start limit step body)).Leads program
      final) :
    Fits returnsOf final (.forLoop slot start limit step body) := by
  have hstart : start.Scoped program base := hs start (by simp [Stmt.operands])
  have hlimit : limit.Scoped program base := hs limit (by simp [Stmt.operands])
  have hstep : ∀ e ∈ step.toList, e.Scoped program base :=
    fun e he => hs e (by simp [Stmt.operands, he])
  let first := (infer returnsOf stage.1 start).run stage.2
  let second := (infer returnsOf stage.1 limit).run first.2
  let third := (inferStep returnsOf stage.1 step).run second.2
  have hok₁ : Ok program base (stage.1, first.2) := (h.inferred hret hstart).1
  have hok₂ : Ok program base (stage.1, second.2) := (hok₁.inferred hret hlimit).1
  have hok₃ : Ok program base (stage.1, third.2) := hok₂.inferredStep hret hstep
  have hloop : (Ty.loopType first.1 second.1 third.1).Has third.2.shapes := has_loopType ..
  -- what the result knows has grown from what was known after each of the operands
  have hev₃ : third.2.Evolves program final.2 := evolves_of_assign hok₃ hloop hafter
  have hev₂ : second.2.Evolves program final.2 :=
    (gives_inferStep hret hok₂.sound hok₂.has step fun e he =>
      (hstep e he).mono hok₂.grows).evolves.trans hev₃
  have hev₁ : first.2.Evolves program final.2 :=
    (gives_infer hret stage.1 limit hok₁.sound hok₁.has.typing
      (hlimit.mono hok₁.grows)).evolves.trans hev₂
  obtain ⟨hfirst, hlead₁⟩ := hlead.infer_eq hret h hstart hev₁
  obtain ⟨hsecond, hlead₂⟩ := hlead₁.infer_eq hret hok₁ hlimit hev₂
  obtain ⟨hthird, hlead₃⟩ := hlead₂.inferStep_eq hret hok₂ hstep hev₃
  rw [Fits, hfirst, hsecond, hthird]
  exact hlead₃.admits hok₃ hloop hafter

/-- A visit of the last pass. -/
theorem Leads.fits_visit (hret : returnsOf.Sound program bound) (h : stage.Ok program base)
    (hlead : stage.Leads program final) {s : Stmt} (hs : s.Scoped program base)
    (hafter : (Inference.visit returnsOf stage s).Leads program final) :
    Fits returnsOf final s := by
  cases s with
  | declare slot value =>
    cases value with
    | none =>
      have hnil : Ty.nil.Has stage.2.shapes := trivial
      exact hlead.admits h hnil hafter
    | some e => exact hlead.admits_inferred hret h (hs e (List.mem_cons_self ..)) hafter
  | assign slot e => exact hlead.admits_inferred hret h (hs e (List.mem_cons_self ..)) hafter
  | forLoop slot start limit step body => exact hlead.admits_loop hret h hs hafter
  | ret values =>
    have hvalues : ∀ e ∈ values, e.Scoped program stage.2.shapes :=
      fun e he => (hs e he).mono h.grows
    have hinfer := gives_inferReturn hret h.sound h.has.typing hvalues
    obtain ⟨wider, hwider, hcovers⟩ :=
      covers_recordReturn stage.1 ((inferReturn returnsOf stage.1 values).run stage.2).1
    rw [Fits, inferReturn_congr returnsOf hlead.typing,
      (hinfer.recalls final.2 hafter.evolves hlead.size).1]
    exact (hafter.returns wider hwider).trans hcovers
  | _ => trivial

/-- All visits of the last pass. -/
theorem Leads.fits_visits (hret : returnsOf.Sound program bound) :
    ∀ (stmts : List Stmt) {stage : Stage}, stage.Ok program base →
      (∀ s ∈ stmts, s.Scoped program base) → stage.Leads program final →
      (stmts.foldl (Inference.visit returnsOf) stage).Leads program final →
      ∀ s ∈ stmts, Fits returnsOf final s
  | [], _, _, _, _, _, _, hmem => by cases hmem
  | s :: rest, stage, h, hscope, hlead, hlast, t, hmem => by
    have hs := hscope s (List.mem_cons_self ..)
    have hrest : ∀ t ∈ rest, t.Scoped program base :=
      fun t ht => hscope t (List.mem_cons_of_mem _ ht)
    have hok := h.visit hret hs
    have hmid := Leads.between (h.follows_visit hret hs) (hok.follows_visits hret rest hrest)
      hlead hlast
    rcases List.mem_cons.mp hmem with rfl | hmem
    · exact hlead.fits_visit hret h hs hmid
    · exact Leads.fits_visits hret rest hok hrest hmid hlast t hmem

end Stage

/-! ## The last pass -/

/-- The stage at which the last pass of an analysis begins. -/
def lastStart (returnsOf : ReturnsOf) (body : List Stmt) : Nat → Stage → Stage
  | 0, stage => stage.widened
  | remaining + 1, stage =>
    if (stage.walked returnsOf body).1.vars = stage.1.vars then stage
    else lastStart returnsOf body remaining (stage.walked returnsOf body)

/-- An analysis ends with its last pass, but for the note that it has converged. -/
theorem agrees_lastStart (returnsOf : ReturnsOf) (body : List Stmt) (remaining done : Nat)
    (stage : Stage) :
    let outcome := (analyzeFrom returnsOf body remaining done stage.1).run stage.2
    let last := (lastStart returnsOf body remaining stage).walked returnsOf body
    outcome.1.Agrees last.1 ∧ outcome.2.shapes = last.2.shapes ∧
      outcome.2.returns = last.2.returns := by
  induction remaining generalizing done stage with
  | zero => exact ⟨⟨rfl, rfl, rfl, rfl⟩, rfl, rfl⟩
  | succ remaining ih =>
    rw [lastStart]
    by_cases h : (stage.walked returnsOf body).1.vars = stage.1.vars
    · rw [run_analyzeFrom_of_eq returnsOf body h, if_pos h]
      exact ⟨⟨rfl, rfl, rfl, rfl⟩, rfl, rfl⟩
    · rw [run_analyzeFrom_of_ne returnsOf body h, if_neg h]
      exact ih (done + 1) _

/-- The return types after a pass cover those that it met, and nothing at the end. -/
theorem covers_walked (returnsOf : ReturnsOf) (body : List Stmt) (stage : Stage) :
    (∀ types, ((Stmt.blockListed body).foldl (visit returnsOf) stage.opened).1.returns =
        some types → Covers (stage.walked returnsOf body).1.returnTypes types) ∧
      (Stmt.blockFallsThrough body = true →
        Covers (stage.walked returnsOf body).1.returnTypes []) := by
  rw [walked_eq]
  dsimp only
  generalize (Stmt.blockListed body).foldl (visit returnsOf) stage.opened = last
  by_cases hend : Stmt.blockFallsThrough body = true
  · rw [if_pos hend]
    obtain ⟨wider, hwider, hcovers⟩ := covers_recordReturn last.1 []
    have htypes : (last.1.recordReturn []).returnTypes = wider := by
      rw [returnTypes, hwider, Option.getD_some]
    rw [htypes]
    refine ⟨fun types hlast => ?_, fun _ => hcovers⟩
    obtain ⟨wider', hwider', hcovers'⟩ :=
      (advances_recordReturn last.2.shapes last.1 []).returns types hlast
    rw [hwider, Option.some.injEq] at hwider'
    rw [hwider']
    exact hcovers'
  · rw [if_neg hend]
    refine ⟨fun types hlast => ?_, fun h => absurd h hend⟩
    rw [returnTypes, hlast]
    exact .refl types

section

variable {program : Program} {bound : Nat} {returnsOf : ReturnsOf} {base : Shapes}
  {body : List Stmt}

theorem Stage.Ok.lastStart (hret : returnsOf.Sound program bound)
    (hscope : Stmt.BlockEvery (Stmt.Scoped program base) body) (remaining : Nat) {stage : Stage}
    (h : stage.Ok program base) :
    (Inference.lastStart returnsOf body remaining stage).Ok program base := by
  induction remaining generalizing stage with
  | zero => exact h.widened
  | succ remaining ih =>
    rw [Inference.lastStart]
    split
    · exact h
    · exact ih (h.walked hret hscope)

/-- The last pass changes no local. -/
theorem Stage.Ok.vars_lastStart (hret : returnsOf.Sound program bound)
    (hscope : Stmt.BlockEvery (Stmt.Scoped program base) body) (remaining : Nat) {stage : Stage}
    (h : stage.Ok program base) :
    ((Inference.lastStart returnsOf body remaining stage).walked returnsOf body).1.vars =
      (Inference.lastStart returnsOf body remaining stage).1.vars := by
  induction remaining generalizing stage with
  | zero =>
    -- with every local in conflict there is nothing left that could change
    have hwalk := gives_walkBody hret h.widened.sound h.widened.has
      (hscope.mono fun _ hs => hs.mono h.widened.grows)
    have hreaches := hwalk.post.1
    refine vars_ext hreaches.size fun slot => ?_
    have hle := hreaches.le slot
    rw [varState_widened] at hle
    exact hle.eq_conflicted.trans (varState_widened stage slot).symm
  | succ remaining ih =>
    rw [Inference.lastStart]
    split
    · next hvars => exact hvars
    · exact ih (h.walked hret hscope)

/-- If the last pass merged no shapes, the result is consistent. -/
theorem Stage.Ok.consistent_of_size (hret : returnsOf.Sound program bound)
    (hscope : Stmt.BlockEvery (Stmt.Scoped program base) body) {start outcome : Stage}
    (h : start.Ok program base)
    (hvars : (start.walked returnsOf body).1.vars = start.1.vars)
    (hagrees : outcome.1.Agrees (start.walked returnsOf body).1)
    (hshapes : outcome.2.shapes = (start.walked returnsOf body).2.shapes)
    (hreturns : outcome.2.returns = (start.walked returnsOf body).2.returns)
    (hsize : outcome.2.shapes.states.size = start.2.shapes.states.size) :
    Consistent returnsOf body outcome := by
  have hwalk := gives_walkBody hret h.sound h.has (hscope.mono fun _ hs => hs.mono h.grows)
  have hev : (start.walked returnsOf body).2.Evolves program outcome.2 :=
    .of_shapes hwalk.evolves.sound (by rw [hshapes]; exact .refl hwalk.evolves.sound.forest) hreturns
  have hstmts := Stmt.blockEvery_iff.mp hscope
  obtain ⟨hcovers, hend⟩ := covers_walked returnsOf body start
  have htypes : outcome.1.returnTypes = (start.walked returnsOf body).1.returnTypes := by
    rw [returnTypes, hagrees.returns, ← returnTypes]
  have hproto : outcome.1.proto = start.1.proto := hagrees.proto.trans hwalk.post.1.proto
  have hupvalues : outcome.1.upvalueTypes = start.1.upvalueTypes :=
    hagrees.upvalues.trans hwalk.post.1.upvalues
  have hlocals : outcome.1.vars = start.1.vars := hagrees.vars.trans hvars
  have hlate : (start.walked returnsOf body).2 =
      ((Stmt.blockListed body).foldl (Inference.visit returnsOf) start.opened).2 := by
    rw [walked_eq]
  have hfollows := h.opened.follows_visits hret _ hstmts
  have hfirst : start.opened.Leads program outcome :=
    ⟨hwalk.evolves.trans hev, hsize, hproto, hupvalues, hlocals, fun _ hnone => by cases hnone⟩
  have hlast : ((Stmt.blockListed body).foldl (Inference.visit returnsOf) start.opened).Leads
      program outcome := by
    refine ⟨hlate ▸ hev, by rw [hshapes, hlate], hproto.trans hfollows.advances.proto.symm,
      hupvalues.trans hfollows.advances.upvalues.symm, ?_, fun types hfound => ?_⟩
    · rw [hagrees.vars, vars_walked]
    · rw [htypes]
      exact hcovers types hfound
  -- another pass from the result is the last pass again, made with what is known by now
  obtain ⟨hagain, -⟩ := hwalk.recalls outcome.2 hev hsize
  have hcongr := walked_congr returnsOf body hproto hlocals hupvalues outcome.2
  refine ⟨Stmt.blockEvery_iff.mpr (Stage.Leads.fits_visits hret _ h.opened hstmts hfirst hlast),
    fun hfalls => ?_, ?_, ?_⟩
  · rw [htypes]
    exact hend hfalls
  · rw [hagrees.vars]
    exact hcongr.vars.trans (congrArg Inference.vars hagain)
  · rw [hagrees.returns]
    exact hcongr.returns.trans (congrArg Inference.returns hagain)

end

/-- The result of an analysis is a typing of the body.  It is consistent if the last pass had
no return types to find, or if it merged no shapes in finding them. -/
theorem analyze_consistent {program : Program} {k : Knowledge} (h : k.Sound program) {index : Nat}
    {proto : Prototype} (hproto : program.prototypes[index]? = some proto) {args upvalues : List Ty}
    (hargs : ∀ t ∈ args, t.Has k.shapes) (hupvalues : ∀ t ∈ upvalues, t.Has k.shapes)
    (limit maxIterations : Nat) :
    let returnsOf := returnTypesOf program limit
    let start := ofTypes proto args upvalues maxIterations
    let outcome := (analyze returnsOf proto.body start).run k
    let last := lastStart returnsOf proto.body start.maxIterations (start, k)
    BodyTyped outcome.2 outcome.1.typing outcome.1.returnTypes proto.body ∧
      (outcome.2.returns.length = last.2.returns.length ∨
          outcome.2.shapes.states.size = last.2.shapes.states.size →
        Consistent returnsOf proto.body outcome) := by
  intro returnsOf start outcome last
  have hret := returnTypesOf_sound program limit
  have hscope := h.inScope.body hproto
  have hok : Stage.Ok program k.shapes (start, k) :=
    ⟨h, .refl _, .refl _, has_ofTypes maxIterations hargs hupvalues⟩
  have hlast : last.Ok program k.shapes := hok.lastStart hret hscope _
  have hvars : (last.walked returnsOf proto.body).1.vars = last.1.vars :=
    hok.vars_lastStart hret hscope _
  obtain ⟨hagrees, hshapes, hreturns⟩ :=
    agrees_lastStart returnsOf proto.body start.maxIterations 0 (start, k)
  refine ⟨(gives_analyze hret h hproto args maxIterations hargs hupvalues).post.2.2.2, ?_⟩
  rintro (hfound | hmerged)
  · refine hlast.consistent_of_size hret hscope hvars hagrees hshapes hreturns ?_
    have hsize := hlast.size_walked hret (quiet_returnTypesOf program limit) hscope hvars
      ((congrArg List.length hreturns).symm.trans hfound)
    exact (congrArg (·.states.size) hshapes).trans hsize
  · exact hlast.consistent_of_size hret hscope hvars hagrees hshapes hreturns hmerged

/-- Calling a function for the first time merges the shape of a table that was assigned before
the call.  The pass changes no local and is the last, but another one would: the result is not
consistent.  Once the return types of the function are known, the result is. -/
theorem analyze_consistent_once_found :
    let outer := Prototype.ofParts ⟨1, "outer"⟩ ["f", "a", "b"] [] []
      [.assign 2 (.logical .or (.table 1 []) (.slot 1)), .expr (.call (.slot 0) []),
        .ret [.slot 2]]
    let inner := Prototype.ofParts ⟨2, "inner"⟩ [] ["t"] [⟨"u", some (.tableOf 1), false⟩]
      [.declare 0 (some (.upvalue 0)), .assign 0 (.table 2 [])]
    let program : Program := ⟨#[outer, inner]⟩
    let k : Knowledge := ⟨⟨#[.blank, .blank]⟩, [], #[]⟩
    let returnsOf := returnTypesOf program 8
    let start := ofTypes outer [.function ⟨2, "inner"⟩, .tableOf 1, .tableOf 1] [] 8
    let first := (analyze returnsOf outer.body start).run k
    let second := (analyze returnsOf outer.body start).run first.2
    k.Sound program ∧ ¬ Consistent returnsOf outer.body first ∧
      Consistent returnsOf outer.body second := by
  intro outer inner program k returnsOf start first second
  have hblank (id : Nat) : k.shapes.state id = .blank := by
    rcases id with _ | _ | _ | id <;> rfl
  have hscope : program.Scoped k.shapes := by
    have houter : Program.Scoped ⟨#[outer]⟩ k.shapes := by
      refine Program.Scoped.push (Program.scoped_empty k.shapes) rfl ?_ (fun _ h => by cases h)
      simp [outer, Prototype.ofParts, k, Stmt.BlockEvery, Stmt.Every, Stmt.Scoped, Stmt.operands,
        Expr.Scoped, Expr.mentions, Expr.listMentions, Expr.entryMentions, Mention.Exists,
        Shapes.Has]
    refine houter.push rfl ?_ ?_
    · simp [inner, Prototype.ofParts, k, Stmt.BlockEvery, Stmt.Every, Stmt.Scoped, Stmt.operands,
        Expr.Scoped, Expr.mentions, Expr.entryMentions, Mention.Exists, Shapes.Has]
    · intro type htype
      rw [show inner.staticUpvalueTypes = [.tableOf 1] from rfl, List.mem_singleton] at htype
      rw [htype]
      exact ⟨by decide, by decide⟩
  have h : k.Sound program := .of_blank hblank hscope
  have hproto : program.prototypes[0]? = some outer := rfl
  have hargs : ∀ t ∈ [Ty.function ⟨2, "inner"⟩, .tableOf 1, .tableOf 1], t.Has k.shapes := by
    simp [Ty.Has, k, Shapes.Has]
  have hev : k.Evolves program first.2 := (gives_analyze (returnTypesOf_sound program 8) h hproto
    _ 8 hargs (fun _ ht => by cases ht)).evolves
  have hconsistent {later : Knowledge} (hlater : k.Evolves program later)
      (hfound : ((analyze returnsOf outer.body start).run later).2.returns.length =
        (lastStart returnsOf outer.body start.maxIterations (start, later)).2.returns.length) :
      Consistent returnsOf outer.body ((analyze returnsOf outer.body start).run later) :=
    (analyze_consistent hlater.sound hproto (fun t ht => (hargs t ht).mono hlater.grows.shapes)
      (fun _ ht => by cases ht) 8 8).2 (.inl hfound)
  have hagain : (Stage.walked returnsOf outer.body first).1.returns ≠ first.1.returns := by
    decide +kernel
  exact ⟨h, fun hfirst => hagain hfirst.returns, hconsistent hev (by decide +kernel)⟩

end Inference
end AdaptiveScript
