import AdaptiveScript.Proofs.Inference.Analysis

/-!
# The course of an analysis

A walk does not follow control flow: it visits the statements of a body in the order of the
text, however deep they stand.  So a pass is a fold over the list of all statements
(`run_walkBlock`), and what an analysis goes through is a list of stages, one before each
visit and one after the last (`course`).  What holds at every stage, or between any two of
them, is then a matter of one visit.
-/

namespace AdaptiveScript
namespace Stmt

mutual

/-- A statement and all statements inside it, in the order of the text. -/
def listed : Stmt → List Stmt
  | .branch cond thenBlock elseBlock =>
    .branch cond thenBlock elseBlock :: (blockListed thenBlock ++ blockListed elseBlock)
  | .whileLoop cond body => .whileLoop cond body :: blockListed body
  | .forLoop slot start limit step body => .forLoop slot start limit step body :: blockListed body
  | s => [s]

/-- All statements of a block and inside them, in the order of the text. -/
def blockListed : List Stmt → List Stmt
  | [] => []
  | s :: rest => s.listed ++ blockListed rest

end

mutual

/-- A property of all statements inside a statement is one of those in its list. -/
theorem every_iff {P : Stmt → Prop} : ∀ {s : Stmt}, s.Every P ↔ ∀ t ∈ s.listed, P t
  | .branch _ _ _ => by simp [Every, listed, blockEvery_iff, or_imp, forall_and]
  | .whileLoop _ _ => by simp [Every, listed, blockEvery_iff]
  | .forLoop _ _ _ _ _ => by simp [Every, listed, blockEvery_iff]
  | .declare _ _ => by simp [Every, listed]
  | .assign _ _ => by simp [Every, listed]
  | .setUpvalue _ _ => by simp [Every, listed]
  | .setGlobal _ _ => by simp [Every, listed]
  | .setIndex _ _ _ => by simp [Every, listed]
  | .expr _ => by simp [Every, listed]
  | .ret _ => by simp [Every, listed]
  | .breakLoop => by simp [Every, listed]

theorem blockEvery_iff {P : Stmt → Prop} :
    ∀ {block : List Stmt}, BlockEvery P block ↔ ∀ t ∈ blockListed block, P t
  | [] => by simp [BlockEvery, blockListed]
  | _ :: _ => by simp [BlockEvery, blockListed, every_iff, blockEvery_iff, or_imp, forall_and]

end

mutual

/-- What stands inside a statement inside another stands inside that other. -/
theorem listed_trans {t u : Stmt} (hu : u ∈ t.listed) : ∀ {s : Stmt}, t ∈ s.listed → u ∈ s.listed
  | .branch cond thenBlock elseBlock, ht => by
    rw [listed, List.mem_cons, List.mem_append] at ht
    rcases ht with rfl | ht | ht
    · exact hu
    · simp [listed, blockListed_trans hu ht]
    · simp [listed, blockListed_trans hu ht]
  | .whileLoop cond body, ht => by
    rw [listed, List.mem_cons] at ht
    rcases ht with rfl | ht
    · exact hu
    · simp [listed, blockListed_trans hu ht]
  | .forLoop slot start limit step body, ht => by
    rw [listed, List.mem_cons] at ht
    rcases ht with rfl | ht
    · exact hu
    · simp [listed, blockListed_trans hu ht]
  | .declare _ _, ht | .assign _ _, ht | .setUpvalue _ _, ht | .setGlobal _ _, ht
  | .setIndex _ _ _, ht | .expr _, ht | .ret _, ht | .breakLoop, ht => by
    simp only [listed, List.mem_singleton] at ht
    exact ht ▸ hu

theorem blockListed_trans {t u : Stmt} (hu : u ∈ t.listed) :
    ∀ {block : List Stmt}, t ∈ blockListed block → u ∈ blockListed block
  | [], ht => by simp [blockListed] at ht
  | _ :: _, ht => by
    rw [blockListed, List.mem_append] at ht ⊢
    exact ht.imp (listed_trans hu) (blockListed_trans hu)

end

theorem BlockEvery.of_mem {P : Stmt → Prop} {block : List Stmt} (h : BlockEvery P block) {t : Stmt}
    (ht : t ∈ blockListed block) : t.Every P :=
  every_iff.mpr fun u hu => blockEvery_iff.mp h u (blockListed_trans hu ht)

/-- A statement with its blocks taken out. -/
def bare : Stmt → Stmt
  | .branch cond _ _ => .branch cond [] []
  | .whileLoop cond _ => .whileLoop cond []
  | .forLoop slot start limit step _ => .forLoop slot start limit step []
  | s => s

theorem operands_bare (s : Stmt) : s.bare.operands = s.operands := by
  cases s <;> rfl

/-- Without its blocks a statement has to be looked at alone. -/
theorem every_bare {P : Stmt → Prop} {s : Stmt} : s.bare.Every P ↔ P s.bare := by
  cases s <;> simp [bare, Every, BlockEvery]

end Stmt

namespace Inference

/-- An analysis under way, with what is known at that time. -/
abbrev Stage := Inference × Knowledge

/-- What walking does at one statement, leaving out the blocks inside it. -/
def visit (returnsOf : ReturnsOf) (stage : Stage) (s : Stmt) : Stage :=
  (walk returnsOf s.bare stage.1).run stage.2

section

variable (returnsOf : ReturnsOf)

mutual

/-- Walking through a statement is visiting the statements inside it one after another. -/
theorem run_walk : ∀ (s : Stmt) (ctx : Inference) (k : Knowledge),
    (walk returnsOf s ctx).run k = s.listed.foldl (visit returnsOf) (ctx, k)
  | .branch cond thenBlock elseBlock, ctx, k => by
    have hcond : visit returnsOf (ctx, k) (.branch cond thenBlock elseBlock) =
        (ctx, ((infer returnsOf ctx cond).run k).2) := rfl
    rw [Stmt.listed, List.foldl_cons, List.foldl_append, hcond, ← run_walkBlock thenBlock, walk]
    exact run_walkBlock elseBlock _ _
  | .whileLoop cond body, ctx, k => by
    rw [Stmt.listed, List.foldl_cons, walk]
    exact run_walkBlock body ctx ((infer returnsOf ctx cond).run k).2
  | .forLoop slot start limit step body, ctx, k => by
    rw [Stmt.listed, List.foldl_cons, walk]
    exact run_walkBlock body _ _
  | .declare _ _, _, _ => rfl
  | .assign _ _, _, _ => rfl
  | .setUpvalue _ _, _, _ => rfl
  | .setGlobal _ _, _, _ => rfl
  | .setIndex _ _ _, _, _ => rfl
  | .expr _, _, _ => rfl
  | .ret _, _, _ => rfl
  | .breakLoop, _, _ => rfl

theorem run_walkBlock : ∀ (block : List Stmt) (ctx : Inference) (k : Knowledge),
    (walkBlock returnsOf block ctx).run k =
      (Stmt.blockListed block).foldl (visit returnsOf) (ctx, k)
  | [], _, _ => rfl
  | s :: rest, ctx, k => by
    rw [Stmt.blockListed, List.foldl_append, ← run_walk s, walkBlock]
    exact run_walkBlock rest _ _

end

end

/-! ## Passes -/

/-- A stage with the return types forgotten, which is how a pass begins. -/
def Stage.opened (stage : Stage) : Stage :=
  ({ stage.1 with returns := none }, stage.2)

/-- A stage with all locals in conflict, as it is when the passes ran out. -/
def Stage.widened (stage : Stage) : Stage :=
  ({ stage.1 with vars := stage.1.vars.map fun _ => .conflicted },
    ((Learn.note (.widened stage.1.proto.ref.name stage.1.maxIterations)).run stage.2).2)

/-- The stage after a pass. -/
def Stage.walked (returnsOf : ReturnsOf) (body : List Stmt) (stage : Stage) : Stage :=
  (walkBody returnsOf body stage.1).run stage.2

/-- The stages of one pass. -/
def pass (returnsOf : ReturnsOf) (body : List Stmt) (stage : Stage) : List Stage :=
  (Stmt.blockListed body).scanl (visit returnsOf) stage.opened

/-- The stages of an analysis, in order. -/
def course (returnsOf : ReturnsOf) (body : List Stmt) : Nat → Stage → List Stage
  | 0, stage => stage :: pass returnsOf body stage.widened
  | remaining + 1, stage =>
    if (stage.walked returnsOf body).1.vars = stage.1.vars then pass returnsOf body stage
    else pass returnsOf body stage ++ course returnsOf body remaining (stage.walked returnsOf body)

theorem varState_widened (stage : Stage) (slot : Nat) :
    stage.widened.1.varState slot = .conflicted := by
  rw [varState, Stage.widened, Array.getElem?_map]
  cases stage.1.vars[slot]? <;> rfl

section

variable (returnsOf : ReturnsOf) (body : List Stmt)

/-- A pass ends with its last visit, but for the return at the end of the body. -/
theorem walked_eq (stage : Stage) :
    stage.walked returnsOf body =
      let last := (Stmt.blockListed body).foldl (visit returnsOf) stage.opened
      (if Stmt.blockFallsThrough body then last.1.recordReturn [] else last.1, last.2) := by
  rw [Stage.opened, ← run_walkBlock]
  rfl

theorem vars_walked (stage : Stage) :
    (stage.walked returnsOf body).1.vars =
      ((Stmt.blockListed body).foldl (visit returnsOf) stage.opened).1.vars := by
  rw [walked_eq]
  dsimp only
  split <;> rfl

theorem head?_pass (stage : Stage) : (pass returnsOf body stage).head? = some stage.opened :=
  List.head?_scanl

theorem getLast?_pass (stage : Stage) :
    (pass returnsOf body stage).getLast? =
      some ((Stmt.blockListed body).foldl (visit returnsOf) stage.opened) :=
  List.getLast?_scanl

/-- A pass that changes no local is the last. -/
theorem run_analyzeFrom_of_eq {stage : Stage}
    (h : (stage.walked returnsOf body).1.vars = stage.1.vars) (remaining done : Nat) :
    (analyzeFrom returnsOf body (remaining + 1) done stage.1).run stage.2 =
      ({ (stage.walked returnsOf body).1 with converged := true },
        ((Learn.note (.converged stage.1.proto.ref.name (done + 1))).run
          (stage.walked returnsOf body).2).2) := by
  rw [analyzeFrom]
  show StateT.run (if (stage.walked returnsOf body).1.vars = stage.1.vars then _ else _)
    (stage.walked returnsOf body).2 = _
  rw [if_pos h]
  rfl

/-- A pass that changes a local is followed by another. -/
theorem run_analyzeFrom_of_ne {stage : Stage}
    (h : (stage.walked returnsOf body).1.vars ≠ stage.1.vars) (remaining done : Nat) :
    (analyzeFrom returnsOf body (remaining + 1) done stage.1).run stage.2 =
      (analyzeFrom returnsOf body remaining (done + 1) (stage.walked returnsOf body).1).run
        (stage.walked returnsOf body).2 := by
  rw [analyzeFrom]
  show StateT.run (if (stage.walked returnsOf body).1.vars = stage.1.vars then _ else _)
    (stage.walked returnsOf body).2 = _
  rw [if_neg h]
  rfl

/-- An analysis begins where it is started. -/
theorem head?_course (remaining : Nat) (stage : Stage) :
    (course returnsOf body remaining stage).head?.map (·.1.vars) = some stage.1.vars := by
  cases remaining with
  | zero => rfl
  | succ remaining =>
    rw [course]
    split
    · rw [head?_pass]
      rfl
    · rw [List.head?_append, head?_pass]
      rfl

/-- An analysis ends at the last stage of its course. -/
theorem getLast?_course (remaining done : Nat) (stage : Stage) :
    (course returnsOf body remaining stage).getLast?.map (·.1.vars) =
      some ((analyzeFrom returnsOf body remaining done stage.1).run stage.2).1.vars := by
  induction remaining generalizing done stage with
  | zero =>
    have hlast : (course returnsOf body 0 stage).getLast? =
        (pass returnsOf body stage.widened).getLast? := by
      rw [course, List.getLast?_cons, getLast?_pass]
      rfl
    rw [hlast, getLast?_pass, Option.map_some, ← vars_walked]
    rfl
  | succ remaining ih =>
    rw [course]
    by_cases h : (stage.walked returnsOf body).1.vars = stage.1.vars
    · rw [if_pos h, run_analyzeFrom_of_eq returnsOf body h, getLast?_pass, Option.map_some,
        ← vars_walked]
    · rw [if_neg h, run_analyzeFrom_of_ne returnsOf body h, ← ih]
      rw [List.getLast?_append]
      -- the course of the remaining passes is not empty
      cases hlast : (course returnsOf body remaining (stage.walked returnsOf body)).getLast? with
      | some last => rfl
      | none =>
        have hhead := head?_course returnsOf body remaining (stage.walked returnsOf body)
        rw [List.getLast?_eq_none_iff.mp hlast] at hhead
        cases hhead

end

/-! ## What holds at every stage -/

namespace Stage

/-- A later stage of the same pass. -/
structure Follows (program : Program) (stage next : Stage) : Prop where
  evolves : stage.2.Evolves program next.2
  advances : Advances next.2.shapes stage.1 next.1

theorem Follows.trans {program : Program} {stage mid next : Stage}
    (h₁ : stage.Follows program mid) (h₂ : mid.Follows program next) :
    stage.Follows program next :=
  ⟨h₁.evolves.trans h₂.evolves,
    (h₁.advances.mono h₂.evolves.grows.shapes h₁.evolves.sound.forest
      h₂.evolves.sound.forest).trans h₂.advances⟩

/-- States of locals do not come back, so a local that is as it was has not changed in
between. -/
theorem Follows.vars_eq {program : Program} {stage mid next : Stage}
    (h₁ : stage.Follows program mid) (h₂ : mid.Follows program next)
    (h : next.1.vars = stage.1.vars) : mid.1.vars = stage.1.vars :=
  (h₁.advances.mono h₂.evolves.grows.shapes h₁.evolves.sound.forest
    h₂.evolves.sound.forest).vars_eq h₂.advances h

/-- What is known at a stage is true and has grown from the shapes `base` by merging, and the
analysis names shapes that exist. -/
structure Ok (program : Program) (base : Shapes) (stage : Stage) : Prop where
  sound : stage.2.Sound program
  grows : base.Grows stage.2.shapes
  conserves : base.Conserves stage.2.shapes
  has : stage.1.Has stage.2.shapes

namespace Ok

variable {program : Program} {bound : Nat} {returnsOf : ReturnsOf} {base : Shapes} {stage : Stage}

/-- The stage that a computation leads to. -/
theorem next {α : Type} {x : Learn α} {Q : α → Knowledge → Prop} (h : stage.Ok program base)
    (hx : Learn.Gives program bound x stage.2 Q) {ctx : Inference}
    (hctx : ctx.Has (x.run stage.2).2.shapes) : Ok program base (ctx, (x.run stage.2).2) :=
  ⟨hx.evolves.sound, h.grows.trans hx.evolves.grows.shapes, h.conserves.trans hx.conserves, hctx⟩

/-- Inference keeps the analysis and gives a type that names a shape that exists. -/
theorem inferred (hret : returnsOf.Sound program bound) (h : stage.Ok program base)
    {e : Expr} (he : e.Scoped program base) :
    Ok program base (stage.1, ((infer returnsOf stage.1 e).run stage.2).2) ∧
      ((infer returnsOf stage.1 e).run stage.2).1.Has
        ((infer returnsOf stage.1 e).run stage.2).2.shapes := by
  have hinfer := gives_infer hret stage.1 e h.sound h.has.typing (he.mono h.grows)
  exact ⟨h.next hinfer (h.has.mono hinfer.evolves.grows.shapes), hinfer.post.2⟩

theorem inferredStep (hret : returnsOf.Sound program bound) (h : stage.Ok program base)
    {step : Option Expr} (hstep : ∀ e ∈ step.toList, e.Scoped program base) :
    Ok program base (stage.1, ((inferStep returnsOf stage.1 step).run stage.2).2) := by
  have hinfer := gives_inferStep hret h.sound h.has step fun e he => (hstep e he).mono h.grows
  exact h.next hinfer (h.has.mono hinfer.evolves.grows.shapes)

theorem gives_visit (hret : returnsOf.Sound program bound) (h : stage.Ok program base) {s : Stmt}
    (hs : s.Scoped program base) :
    Learn.Gives program bound (walk returnsOf s.bare stage.1) stage.2 fun next after =>
      Advances after.shapes stage.1 next ∧ next.Has after.shapes := by
  have hscope : s.bare.Every (Stmt.Scoped program stage.2.shapes) := by
    rw [Stmt.every_bare, Stmt.Scoped, Stmt.operands_bare]
    exact hs.mono h.grows
  exact (gives_walk hret s.bare h.sound h.has hscope).mono fun _ _ _ hwalked =>
    ⟨hwalked.advances, hwalked.has⟩

theorem visit (hret : returnsOf.Sound program bound) (h : stage.Ok program base) {s : Stmt}
    (hs : s.Scoped program base) : (Inference.visit returnsOf stage s).Ok program base :=
  h.next (h.gives_visit hret hs) (h.gives_visit hret hs).post.2

theorem follows_visit (hret : returnsOf.Sound program bound) (h : stage.Ok program base)
    {s : Stmt} (hs : s.Scoped program base) :
    stage.Follows program (Inference.visit returnsOf stage s) :=
  ⟨(h.gives_visit hret hs).evolves, (h.gives_visit hret hs).post.1⟩

theorem follows_visits (hret : returnsOf.Sound program bound) :
    ∀ (stmts : List Stmt) {stage : Stage}, stage.Ok program base →
      (∀ s ∈ stmts, s.Scoped program base) →
      stage.Follows program (stmts.foldl (Inference.visit returnsOf) stage)
  | [], stage, h, _ => ⟨.refl h.sound, .refl _ _⟩
  | s :: rest, stage, h, hscope => by
    have hs := hscope s (List.mem_cons_self ..)
    exact (h.follows_visit hret hs).trans (follows_visits hret rest (h.visit hret hs)
      fun t ht => hscope t (List.mem_cons_of_mem _ ht))

theorem opened (h : stage.Ok program base) : stage.opened.Ok program base :=
  ⟨h.sound, h.grows, h.conserves, fun hslot => h.has.vars hslot, h.has.upvalues,
    fun _ heq => by cases heq⟩

theorem walked (hret : returnsOf.Sound program bound) (h : stage.Ok program base)
    {body : List Stmt} (hscope : Stmt.BlockEvery (Stmt.Scoped program base) body) :
    (stage.walked returnsOf body).Ok program base := by
  have hwalk := gives_walkBody hret h.sound h.has (hscope.mono fun _ hs => hs.mono h.grows)
  exact h.next hwalk hwalk.post.2.1

theorem widened (h : stage.Ok program base) : stage.widened.Ok program base := by
  have hnote : Learn.Gives program 0 _ _ _ := Learn.gives_note h.sound
    (.widened stage.1.proto.ref.name stage.1.maxIterations)
  refine h.next hnote ⟨fun {slot type} hslot => ?_, ?_, ?_⟩
  · have hstate := varState_widened stage slot
    rw [show stage.widened.1.varState slot = .fixed type from hslot] at hstate
    cases hstate
  · exact h.has.upvalues
  · exact h.has.returns

/-- Visits keep what holds at every stage. -/
theorem of_mem_scanl (hret : returnsOf.Sound program bound) :
    ∀ (stmts : List Stmt) {stage : Stage}, stage.Ok program base →
      (∀ s ∈ stmts, s.Scoped program base) →
      ∀ x ∈ stmts.scanl (Inference.visit returnsOf) stage, x.Ok program base
  | [], stage, h, _, x, hx => by
    rw [List.scanl_nil, List.mem_singleton] at hx
    exact hx ▸ h
  | s :: rest, stage, h, hscope, x, hx => by
    rw [List.scanl_cons, List.mem_cons] at hx
    rcases hx with rfl | hx
    · exact h
    · exact of_mem_scanl hret rest (h.visit hret (hscope s (List.mem_cons_self ..)))
        (fun t ht => hscope t (List.mem_cons_of_mem _ ht)) x hx

theorem of_mem_pass (hret : returnsOf.Sound program bound) (h : stage.Ok program base)
    {body : List Stmt} (hscope : Stmt.BlockEvery (Stmt.Scoped program base) body) {x : Stage}
    (hx : x ∈ pass returnsOf body stage) : x.Ok program base :=
  of_mem_scanl hret _ h.opened (Stmt.blockEvery_iff.mp hscope) x hx

theorem of_mem_course (hret : returnsOf.Sound program bound) {body : List Stmt}
    (hscope : Stmt.BlockEvery (Stmt.Scoped program base) body) (remaining : Nat) {stage x : Stage}
    (h : stage.Ok program base) (hx : x ∈ course returnsOf body remaining stage) :
    x.Ok program base := by
  induction remaining generalizing stage with
  | zero =>
    rcases List.mem_cons.mp hx with rfl | hx
    · exact h
    · exact h.widened.of_mem_pass hret hscope hx
  | succ remaining ih =>
    rw [course] at hx
    split at hx
    · exact h.of_mem_pass hret hscope hx
    · rcases List.mem_append.mp hx with hx | hx
      · exact h.of_mem_pass hret hscope hx
      · exact ih (h.walked hret hscope) hx

end Ok
end Stage
end Inference
end AdaptiveScript
