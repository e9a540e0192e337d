import AdaptiveScript.Proofs.Inference.Course
import Mathlib.Algebra.Order.BigOperators.Group.Finset
import Mathlib.Data.List.Destutter

/-!
# Analysis converges

The states of a local have a height above the shapes that there were when the analysis
began (`VarState.rank`), and every change of state is a step up (`Moves.rises`).  From
bottom to top there are: unassigned; a type without a shape, or with a shape that had been
merged already; a representative of old; the representatives made since, in the order they
were made; conflict.  Merging makes fewer new shapes than there were old ones, whichever
function is being analysed while it happens, so the top is at most two steps more than there
were shapes.

A state that is left is therefore never taken again (`destutter_of_rises`), and the heights of
all locals bound the number of passes that can change one of them (`converges_analyzeFrom`).
-/

namespace AdaptiveScript
namespace VarState

/-- The height of a state above the shapes `base`. -/
def rank (base : Shapes) : VarState → Nat
  | .unassigned => 0
  | .fixed (.tableOf shape) =>
    if shape ≤ base.states.size then
      if (base.state shape).forward = none then 2 else 1
    else 2 + (shape - base.states.size)
  | .fixed _ => 1
  | .conflicted => base.states.size + 2

variable {base : Shapes}

theorem rank_fixed_pos (type : Ty) : 0 < (VarState.fixed type).rank base := by
  cases type <;> simp only [rank] <;> (repeat' split) <;> omega

theorem rank_tableOf_le_two {shape : Nat} (h : shape ≤ base.states.size) :
    (VarState.fixed (.tableOf shape)).rank base ≤ 2 := by
  simp only [rank, if_pos h]
  split <;> omega

theorem rank_tableOf_of_lt {shape : Nat} (h : base.states.size < shape) :
    (VarState.fixed (.tableOf shape)).rank base = 2 + (shape - base.states.size) := by
  simp only [rank, if_neg (Nat.not_le.mpr h)]

theorem rank_tableOf_lt {shapes : Shapes} (hconserves : base.Conserves shapes)
    (hf : shapes.Forest) {shape : Nat} (hhas : shapes.Has shape) :
    (VarState.fixed (.tableOf shape)).rank base < base.states.size + 2 := by
  obtain ⟨hpos, hle⟩ := hhas
  have hsize := hconserves.size_lt hf (by omega)
  by_cases hold : shape ≤ base.states.size
  · have htwo := rank_tableOf_le_two hold
    omega
  · rw [rank_tableOf_of_lt (by omega)]
    omega

/-- Types that name a shape merging leads to are lower than a conflict. -/
theorem rank_fixed_lt {shapes : Shapes} (hconserves : base.Conserves shapes)
    (hf : shapes.Forest) {type : Ty} (htype : type.Has shapes) :
    (VarState.fixed type).rank base < base.states.size + 2 := by
  cases type with
  | tableOf shape => exact rank_tableOf_lt hconserves hf htype
  | _ => exact Nat.lt_of_lt_of_le (Nat.lt_succ_self 1) (Nat.le_add_left 2 _)

/-- A representative made by a merge is higher than the shapes merged into it. -/
theorem rank_lt_resolve {shapes : Shapes} (hg : base.Grows shapes) (hf : shapes.Forest)
    {shape : Nat} (hne : shapes.resolve shape ≠ shape) :
    (VarState.fixed (.tableOf shape)).rank base <
      (VarState.fixed (.tableOf (shapes.resolve shape))).rank base := by
  have hlt : shape < shapes.resolve shape :=
    Nat.lt_of_le_of_ne (hf.le_resolve shape) (Ne.symm hne)
  by_cases hnew : base.states.size < shapes.resolve shape
  · rw [rank_tableOf_of_lt hnew]
    by_cases hle : shape ≤ base.states.size
    · have htwo := rank_tableOf_le_two hle
      omega
    · rw [rank_tableOf_of_lt (by omega)]
      omega
  · -- an old representative: it was one from the start, and the shape was forwarded already
    have hroot : (base.state (shapes.resolve shape)).forward = none := by
      cases hnext : (base.state (shapes.resolve shape)).forward with
      | none => rfl
      | some next =>
        have hkept := hg.forward hnext
        rw [hf.isRoot_resolve shape] at hkept
        cases hkept
    have hforwarded : (base.state shape).forward ≠ none := by
      intro hbase
      cases hnext : (shapes.state shape).forward with
      | none => exact hne (Shapes.resolve_of_isRoot hnext)
      | some next =>
        have hpast := hg.lt_forward hbase hnext
        have hle := hf.le_resolve next
        rw [← hf.resolve_of_forward hnext] at hle
        omega
    have hold := Nat.not_lt.mp hnew
    simp only [rank, if_pos (Nat.le_trans (Nat.le_of_lt hlt) hold), if_pos hold, if_pos hroot,
      if_neg hforwarded]
    exact Nat.lt_succ_self 1

/-- Keeping a state or moving up. -/
def Rises (base : Shapes) (a b : VarState) : Prop :=
  b = a ∨ a.rank base < b.rank base

theorem Rises.trans {a b c : VarState} (hab : a.Rises base b) (hbc : b.Rises base c) :
    a.Rises base c := by
  rcases hab with rfl | hab
  · exact hbc
  · rcases hbc with rfl | hbc
    · exact .inr hab
    · exact .inr (Nat.lt_trans hab hbc)

/-- A state that changes moves up. -/
theorem Moves.rises {shapes : Shapes} (hg : base.Grows shapes)
    (hconserves : base.Conserves shapes) (hf : shapes.Forest) {a b : VarState}
    (ha : ∀ type, a = .fixed type → type.Has shapes) (h : a.Moves shapes b) :
    a.Rises base b := by
  cases h with
  | first type => exact .inr (rank_fixed_pos type)
  | stay type => exact .inl rfl
  | merged shape =>
    by_cases hsame : shapes.resolve shape = shape
    · rw [hsame]
      exact .inl rfl
    · exact .inr (rank_lt_resolve hg hf hsame)
  | conflict hne =>
    cases a with
    | unassigned => exact absurd rfl hne
    | fixed type => exact .inr (rank_fixed_lt hconserves hf (ha type rfl))
    | conflicted => exact .inl rfl

/-- A state that is left is never taken again, and there are no more states to take than
heights. -/
theorem destutter_of_rises {states : List VarState} (hchain : states.IsChain (Rises base))
    (hle : ∀ s ∈ states, s.rank base ≤ base.states.size + 2) :
    (states.destutter (· ≠ ·)).Nodup ∧
      (states.destutter (· ≠ ·)).length ≤ base.states.size + 3 := by
  have htrans : Trans (Rises base) (Rises base) (Rises base) := ⟨Rises.trans⟩
  have hsub := states.destutter_sublist (· ≠ ·)
  have hrises : (states.destutter (· ≠ ·)).IsChain (Rises base) :=
    ((List.isChain_iff_pairwise.mp hchain).sublist hsub).isChain
  -- neighbours that differ are one above the other, and so are any two
  have hup : (states.destutter (· ≠ ·)).IsChain fun a b => a.rank base < b.rank base := by
    rw [List.isChain_iff_getElem] at hrises ⊢
    intro i hi
    have hne := List.isChain_iff_getElem.mp (states.isChain_destutter (· ≠ ·)) i hi
    exact (hrises i hi).resolve_left (Ne.symm hne)
  have hpairs : ((states.destutter (· ≠ ·)).map (rank base)).Pairwise (· < ·) :=
    List.isChain_iff_pairwise.mp ((List.isChain_map _).mpr hup)
  have hnodup : ((states.destutter (· ≠ ·)).map (rank base)).Nodup :=
    hpairs.imp Nat.ne_of_lt
  refine ⟨hnodup.of_map _, ?_⟩
  have hrange : (states.destutter (· ≠ ·)).map (rank base) ⊆ List.range (base.states.size + 3) := by
    intro n hn
    obtain ⟨state, hstate, rfl⟩ := List.mem_map.mp hn
    exact List.mem_range.mpr (Nat.lt_succ_of_le (hle state (hsub.subset hstate)))
  have hlength := (hnodup.subperm hrange).length_le
  rwa [List.length_map, List.length_range] at hlength

end VarState

namespace Inference

/-! ## Steps up -/

/-- Every local has kept its state or moved up. -/
def Climbs (base : Shapes) (ctx next : Inference) : Prop :=
  ∀ slot, (ctx.varState slot).Rises base (next.varState slot)

namespace Climbs

variable {base : Shapes} {ctx mid next : Inference}

theorem of_vars_eq (h : next.vars = ctx.vars) : Climbs base ctx next :=
  fun slot => .inl (by rw [varState, h, varState])

theorem trans (h₁ : Climbs base ctx mid) (h₂ : Climbs base mid next) : Climbs base ctx next :=
  fun slot => (h₁ slot).trans (h₂ slot)

end Climbs

section

variable {program : Program} {bound : Nat} {returnsOf : ReturnsOf} {base : Shapes} {stage : Stage}

theorem Stage.Ok.climbs_assign (h : stage.Ok program base) (slot : Nat) {type : Ty}
    (htype : type.Has stage.2.shapes) :
    Climbs base stage.1 ((stage.1.assign slot type).run stage.2).1 := by
  have hassign : Learn.Gives program 0 _ _ _ := gives_assign_moves h.sound h.has slot htype
  obtain ⟨hmoves, hothers⟩ := hassign.post
  intro other
  by_cases hother : other = slot
  · subst hother
    have hok := h.next hassign (h.has.mono hassign.evolves.grows.shapes)
    exact hmoves.rises hok.grows hok.conserves hok.sound.forest fun type htype => hok.has.vars htype
  · exact .inl (hothers other hother)

/-- A visit assigns at most one local, with the types of the operands known by then. -/
theorem Stage.Ok.climbs_visit (hret : returnsOf.Sound program bound) (h : stage.Ok program base)
    {s : Stmt} (hs : s.Scoped program base) :
    Climbs base stage.1 (Inference.visit returnsOf stage s).1 := by
  cases s with
  | declare slot value =>
    cases value with
    | none =>
      have hnil : Ty.nil.Has stage.2.shapes := trivial
      exact h.climbs_assign slot hnil
    | some e =>
      obtain ⟨hok, htype⟩ := h.inferred hret (hs e (List.mem_cons_self ..))
      exact hok.climbs_assign slot htype
  | assign slot e =>
    obtain ⟨hok, htype⟩ := h.inferred hret (hs e (List.mem_cons_self ..))
    exact hok.climbs_assign slot htype
  | forLoop slot start limit step body =>
    obtain ⟨hok₁, -⟩ := h.inferred hret (hs start (by simp [Stmt.operands]))
    obtain ⟨hok₂, -⟩ := hok₁.inferred hret (hs limit (by simp [Stmt.operands]))
    have hok₃ := hok₂.inferredStep hret (fun e (he : e ∈ step.toList) =>
      hs e (by simp [Stmt.operands, he]))
    exact hok₃.climbs_assign slot (has_loopType ..)
  | _ => exact .of_vars_eq rfl

/-- Statements visited one after another. -/
theorem Stage.Ok.climbs_visits (hret : returnsOf.Sound program bound) :
    ∀ (stmts : List Stmt) {stage : Stage}, stage.Ok program base →
      (∀ s ∈ stmts, s.Scoped program base) →
      Climbs base stage.1 (stmts.foldl (Inference.visit returnsOf) stage).1 ∧
        (stmts.scanl (Inference.visit returnsOf) stage).IsChain fun a b => Climbs base a.1 b.1
  | [], stage, h, _ => ⟨.of_vars_eq rfl, by simp⟩
  | s :: rest, stage, h, hscope => by
    have hs := hscope s (List.mem_cons_self ..)
    have hclimbs := h.climbs_visit hret hs
    obtain ⟨hrest, hchain⟩ := Stage.Ok.climbs_visits hret rest (h.visit hret hs)
      fun t ht => hscope t (List.mem_cons_of_mem _ ht)
    refine ⟨hclimbs.trans hrest, ?_⟩
    rw [List.scanl_cons]
    refine List.isChain_cons.mpr ⟨fun next hnext => ?_, hchain⟩
    rw [List.head?_scanl, Option.mem_some_iff] at hnext
    rw [← hnext]
    exact hclimbs

variable {body : List Stmt}

theorem Stage.Ok.climbs_walked (hret : returnsOf.Sound program bound) (h : stage.Ok program base)
    (hscope : Stmt.BlockEvery (Stmt.Scoped program base) body) :
    Climbs base stage.1 (stage.walked returnsOf body).1 :=
  (h.opened.climbs_visits hret _ (Stmt.blockEvery_iff.mp hscope)).1.trans
    (.of_vars_eq (vars_walked returnsOf body stage))

theorem Stage.Ok.isChain_pass (hret : returnsOf.Sound program bound) (h : stage.Ok program base)
    (hscope : Stmt.BlockEvery (Stmt.Scoped program base) body) :
    (pass returnsOf body stage).IsChain fun a b => Climbs base a.1 b.1 :=
  (h.opened.climbs_visits hret _ (Stmt.blockEvery_iff.mp hscope)).2

theorem Stage.Ok.rank_le (h : stage.Ok program base) (slot : Nat) :
    (stage.1.varState slot).rank base ≤ base.states.size + 2 := by
  cases hstate : stage.1.varState slot with
  | unassigned => exact Nat.zero_le _
  | fixed type =>
    exact Nat.le_of_lt (VarState.rank_fixed_lt h.conserves h.sound.forest (h.has.vars hstate))
  | conflicted => exact Nat.le_refl _

theorem Stage.Ok.climbs_widened (h : stage.Ok program base) :
    Climbs base stage.1 stage.widened.1 := by
  intro slot
  rw [varState_widened]
  cases hstate : stage.1.varState slot with
  | unassigned => exact .inr (Nat.succ_pos _)
  | fixed type =>
    exact .inr (VarState.rank_fixed_lt h.conserves h.sound.forest (h.has.vars hstate))
  | conflicted => exact .inl rfl

/-- All stages of an analysis, across its passes. -/
theorem Stage.Ok.isChain_course (hret : returnsOf.Sound program bound)
    (hscope : Stmt.BlockEvery (Stmt.Scoped program base) body) (remaining : Nat) {stage : Stage}
    (h : stage.Ok program base) :
    (course returnsOf body remaining stage).IsChain fun a b => Climbs base a.1 b.1 := by
  induction remaining generalizing stage with
  | zero =>
    refine List.isChain_cons.mpr ⟨fun next hnext => ?_, h.widened.isChain_pass hret hscope⟩
    rw [head?_pass, Option.mem_some_iff] at hnext
    rw [← hnext]
    exact h.climbs_widened
  | succ remaining ih =>
    rw [course]
    split
    · exact h.isChain_pass hret hscope
    · refine List.isChain_append.mpr ⟨h.isChain_pass hret hscope, ih (h.walked hret hscope),
        fun last hlast first hfirst => .of_vars_eq ?_⟩
      -- the next pass begins with the locals that this one ended with
      have hhead := head?_course returnsOf body remaining (stage.walked returnsOf body)
      rw [getLast?_pass, Option.mem_some_iff] at hlast
      rw [Option.mem_def.mp hfirst, Option.map_some, Option.some.injEq] at hhead
      rw [hhead, ← hlast, vars_walked]

end

/-! ## The number of passes -/

/-- The heights of all locals together. -/
def height (base : Shapes) (ctx : Inference) : Nat :=
  ∑ slot ∈ Finset.range ctx.vars.size, (ctx.varState slot).rank base

section

variable {program : Program} {bound : Nat} {returnsOf : ReturnsOf} {base : Shapes} {stage : Stage}

theorem Stage.Ok.height_le (h : stage.Ok program base) :
    stage.1.height base ≤ stage.1.vars.size * (base.states.size + 2) := by
  have hsum := Finset.sum_le_card_nsmul (Finset.range stage.1.vars.size)
    (fun slot => (stage.1.varState slot).rank base) _ fun slot _ => h.rank_le slot
  rwa [Finset.card_range, Nat.nsmul_eq_mul] at hsum

/-- Locals that changed without anything moving down have become higher. -/
theorem Climbs.height_lt {ctx next : Inference} (h : Climbs base ctx next)
    (hsize : next.vars.size = ctx.vars.size) (hne : next.vars ≠ ctx.vars) :
    ctx.height base < next.height base := by
  have hle (slot : Nat) : (ctx.varState slot).rank base ≤ (next.varState slot).rank base := by
    rcases h slot with heq | hlt
    · rw [heq]
    · exact Nat.le_of_lt hlt
  obtain ⟨slot, hslot, hchanged⟩ : ∃ slot < ctx.vars.size,
      next.varState slot ≠ ctx.varState slot := by
    by_contra hnone
    push Not at hnone
    refine hne (vars_ext hsize fun slot => ?_)
    by_cases hslot : slot < ctx.vars.size
    · exact hnone slot hslot
    · rw [varState, varState, Array.getElem?_eq_none (by omega), Array.getElem?_eq_none (by omega)]
  rw [height, height, hsize]
  exact Finset.sum_lt_sum (fun slot _ => hle slot)
    ⟨slot, Finset.mem_range.mpr hslot, (h slot).resolve_left hchanged⟩

/-- Each pass so far has made the locals higher, so the passes do not run out if there are
more of them than heights. -/
theorem Stage.Ok.converges_analyzeFrom (hret : returnsOf.Sound program bound) {body : List Stmt}
    (hscope : Stmt.BlockEvery (Stmt.Scoped program base) body) (remaining done : Nat)
    {stage : Stage} (h : stage.Ok program base) (hdone : done ≤ stage.1.height base)
    (hmany : stage.1.vars.size * (base.states.size + 2) < done + remaining) :
    ((analyzeFrom returnsOf body remaining done stage.1).run stage.2).1.converged = true ∧
      ∃ passes ≤ stage.1.vars.size * (base.states.size + 2) + 1,
        ((analyzeFrom returnsOf body remaining done stage.1).run stage.2).2.journal.back? =
          some (.converged stage.1.proto.ref.name passes) := by
  have htop := h.height_le
  induction remaining generalizing done stage with
  | zero => omega
  | succ remaining ih =>
    by_cases hvars : (stage.walked returnsOf body).1.vars = stage.1.vars
    · rw [run_analyzeFrom_of_eq returnsOf body hvars]
      exact ⟨rfl, done + 1, by omega, Array.back?_push ..⟩
    · have hwalk := gives_walkBody hret h.sound h.has (hscope.mono fun _ hs => hs.mono h.grows)
      have hproto : (stage.walked returnsOf body).1.proto = stage.1.proto := hwalk.post.1.proto
      have hsize : (stage.walked returnsOf body).1.vars.size = stage.1.vars.size :=
        hwalk.post.1.size
      have hup := (h.climbs_walked hret hscope).height_lt hsize hvars
      have hok := h.walked hret hscope
      rw [run_analyzeFrom_of_ne returnsOf body hvars, ← hproto, ← hsize]
      exact ih (done + 1) hok (by omega) (by rw [hsize]; omega) hok.height_le

end

theorem size_vars_ofTypes (proto : Prototype) (args upvalues : List Ty) (maxIterations : Nat) :
    (ofTypes proto args upvalues maxIterations).vars.size = proto.localCount := by
  simp [ofTypes]

/-- **Analysis converges if there are enough passes.**  Along all passes, and whatever other
functions are analysed on the way, no local ever returns to a state that it left, and a local
changes its state at most two times more often than there are shapes at the start.  So with one
pass more than all locals together can change, some pass changes none of them, and the analysis
ends there: it is noted as converged, and no local is taken to be in conflict because the passes
ran out. -/
theorem analyze_converges {program : Program} {k : Knowledge} (h : k.Sound program) {index : Nat}
    {proto : Prototype} (hproto : program.prototypes[index]? = some proto) {args upvalues : List Ty}
    (hargs : ∀ t ∈ args, t.Has k.shapes) (hupvalues : ∀ t ∈ upvalues, t.Has k.shapes)
    (limit maxIterations : Nat) :
    let returnsOf := returnTypesOf program limit
    let start := ofTypes proto args upvalues maxIterations
    let stages := course returnsOf proto.body start.maxIterations (start, k)
    let outcome := (analyze returnsOf proto.body start).run k
    let shapes := k.shapes.states.size
    (stages.head?.map (·.1.vars) = some start.vars ∧
      stages.getLast?.map (·.1.vars) = some outcome.1.vars) ∧
    (∀ slot : Nat,
      let states := (stages.map (·.1.varState slot)).destutter (· ≠ ·)
      states.Nodup ∧ states.length ≤ (shapes + 2) + 1) ∧
    (proto.localCount * (shapes + 2) + 1 ≤ maxIterations → outcome.1.converged = true ∧
      ∃ passes ≤ proto.localCount * (shapes + 2) + 1,
        outcome.2.journal.back? = some (.converged proto.ref.name passes)) := by
  intro returnsOf start stages outcome shapes
  have hret := returnTypesOf_sound program limit
  have hscope := h.inScope.body hproto
  have hok : Stage.Ok program k.shapes (start, k) :=
    ⟨h, .refl _, .refl _, has_ofTypes maxIterations hargs hupvalues⟩
  refine ⟨⟨head?_course .., getLast?_course ..⟩, fun slot => ?_, fun hmany => ?_⟩
  · have hchain : (stages.map (·.1.varState slot)).IsChain (VarState.Rises k.shapes) :=
      (List.isChain_map _).mpr
        ((hok.isChain_course hret hscope _).imp fun _ _ hclimbs => hclimbs slot)
    refine VarState.destutter_of_rises hchain fun state hstate => ?_
    obtain ⟨stage, hstage, rfl⟩ := List.mem_map.mp hstate
    exact (hok.of_mem_course hret hscope _ hstage).rank_le slot
  · have hsize : start.vars.size = proto.localCount := size_vars_ofTypes ..
    have hpasses : proto.localCount * (shapes + 2) < 0 + start.maxIterations := by
      rw [Nat.zero_add]
      exact Nat.lt_of_lt_of_le hmany (Nat.le_max_left ..)
    have hconverges := hok.converges_analyzeFrom hret hscope start.maxIterations 0 (Nat.zero_le _)
      (by rw [hsize]; exact hpasses)
    rw [hsize] at hconverges
    exact hconverges

/-- Two locals in a loop, each assigned a constructor of its own and then the other one: the
shapes are merged, and nine passes are enough. -/
theorem analyze_converges_merging :
    let body : List Stmt := [.whileLoop (.literal (.bool true))
      [.assign 0 (.table 1 []), .assign 1 (.table 2 []), .assign 0 (.slot 1)]]
    let proto := Prototype.ofParts ⟨1, "f"⟩ [] ["a", "b"] [] body
    let program : Program := ⟨#[proto]⟩
    let k : Knowledge := ⟨⟨#[.blank, .blank]⟩, [], #[]⟩
    k.Sound program ∧
      ((analyze (returnTypesOf program 9) proto.body (ofTypes proto [] [] 9)).run k).1.converged =
        true := by
  intro body proto program k
  have hblank (id : Nat) : k.shapes.state id = .blank := by
    rcases id with _ | _ | _ | id <;> rfl
  have hscope : program.Scoped k.shapes := by
    refine Program.Scoped.push (Program.scoped_empty k.shapes) rfl ?_ (fun _ h => by cases h)
    simp [proto, Prototype.ofParts, body, k, Stmt.BlockEvery, Stmt.Every, Stmt.Scoped,
      Stmt.operands, Expr.Scoped, Expr.mentions, Expr.entryMentions, Mention.Exists, Shapes.Has]
  have h : k.Sound program := .of_blank hblank hscope
  have hproto : program.prototypes[0]? = some proto := rfl
  have hpasses : proto.localCount * (k.shapes.states.size + 2) + 1 ≤ 9 := by decide
  have hnone : ∀ t ∈ ([] : List Ty), t.Has k.shapes := by simp
  have hconverges := (analyze_converges h hproto hnone hnone 9 9).2.2 hpasses
  exact ⟨h, hconverges.1⟩

end Inference
end AdaptiveScript
