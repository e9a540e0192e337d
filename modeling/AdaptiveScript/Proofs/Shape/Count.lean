import AdaptiveScript.Proofs.Shape.Forest

/-!
# Counting shapes

A merge makes one shape and forwards two, so it adds one shape and takes away one
representative.  Nothing else that analysis does to shapes changes either number, so their
sum stays what it was (`Conserves`).  There is always a representative as long as there is a
shape, which bounds the number of shapes that merging can ever lead to
(`Conserves.size_lt`): fewer than twice as many as there were.

The number of shapes also tells whether anything was forwarded: shapes that have grown
without getting more have the representatives they had (`Grows.resolve_eq_of_size`).
-/

namespace AdaptiveScript
namespace Shapes

/-- How many shapes are not forwarded. -/
def roots (shapes : Shapes) : Nat :=
  shapes.states.countP fun s => s.forward.isNone

theorem roots_le_size (shapes : Shapes) : shapes.roots ≤ shapes.states.size :=
  Array.countP_le_size

/-- Setting the state of a shape that exists replaces its share in the count. -/
theorem roots_setState {shapes : Shapes} {id : Nat} (h : shapes.Has id) (s : ShapeState) :
    (shapes.setState id s).roots =
      shapes.roots - (if (shapes.state id).forward.isNone then 1 else 0) +
        (if s.forward.isNone then 1 else 0) := by
  cases id with
  | zero => exact absurd h.1 (Nat.lt_irrefl 0)
  | succ index =>
    have hindex : index < shapes.states.size := h.2
    have hstate : shapes.state (index + 1) = shapes.states[index] := by
      simp [state, hindex]
    rw [hstate, roots, roots, ← Array.countP_set hindex, setState, Array.setIfInBounds,
      dif_pos hindex]

theorem setState_of_not_has {shapes : Shapes} {id : Nat} (h : ¬ shapes.Has id) (s : ShapeState) :
    shapes.setState id s = shapes := by
  cases id with
  | zero => rfl
  | succ index =>
    have hindex : ¬ index < shapes.states.size := fun hlt => h ⟨Nat.succ_pos index, hlt⟩
    simp [setState, Array.setIfInBounds, hindex]

/-- A shape that is not forwarded counts. -/
theorem roots_pos_of_isRoot {shapes : Shapes} {id : Nat} (h : shapes.Has id)
    (hroot : shapes.IsRoot id) : 0 < shapes.roots := by
  cases id with
  | zero => exact absurd h.1 (Nat.lt_irrefl 0)
  | succ index =>
    have hindex : index < shapes.states.size := h.2
    refine Array.countP_pos_iff.mpr ⟨shapes.states[index], Array.getElem_mem hindex, ?_⟩
    simpa [IsRoot, state, hindex] using hroot

/-- Forwards lead to larger numbers, so the last shape is not forwarded. -/
theorem Forest.roots_pos {shapes : Shapes} (hf : shapes.Forest) (h : 0 < shapes.states.size) :
    0 < shapes.roots := by
  have hlast : shapes.Has shapes.states.size := ⟨h, Nat.le_refl _⟩
  refine roots_pos_of_isRoot hlast ?_
  cases hnext : (shapes.state shapes.states.size).forward with
  | none => exact hnext
  | some next =>
    have hlt := hf.lt_forward hnext
    have hle := hf.forward_le hnext
    omega

/-! ## What analysis conserves -/

/-- As many shapes were made as representatives were lost. -/
def Conserves (before after : Shapes) : Prop :=
  after.states.size + after.roots = before.states.size + before.roots

namespace Conserves

theorem refl (shapes : Shapes) : shapes.Conserves shapes :=
  Eq.refl _

theorem trans {a b c : Shapes} (hab : a.Conserves b) (hbc : b.Conserves c) : a.Conserves c :=
  Eq.trans hbc hab

/-- Merging leads to fewer than twice as many shapes. -/
theorem size_lt {before after : Shapes} (h : before.Conserves after) (hf : after.Forest)
    (hpos : 0 < after.states.size) : after.states.size < 2 * before.states.size := by
  have hroots := hf.roots_pos hpos
  have hle := before.roots_le_size
  unfold Conserves at h
  omega

end Conserves

variable {shapes : Shapes}

theorem conserves_setState {id : Nat} {s : ShapeState}
    (hforward : s.forward = (shapes.state id).forward) :
    shapes.Conserves (shapes.setState id s) := by
  by_cases h : shapes.Has id
  · unfold Conserves
    rw [size_setState, roots_setState h, hforward]
    split
    · next hroot =>
      have hpos := roots_pos_of_isRoot h (Option.isNone_iff_eq_none.mp hroot)
      omega
    · rfl
  · rw [setState_of_not_has h]
    exact .refl shapes

@[simp] theorem size_amend (id : Nat) (key : String) (type : Ty) :
    (shapes.amend id key type).states.size = shapes.states.size := by
  unfold amend
  dsimp only
  split
  · rfl
  · exact size_setState ..

@[simp] theorem size_amendUnknown (id : Nat) :
    (shapes.amendUnknown id).states.size = shapes.states.size := by
  unfold amendUnknown
  dsimp only
  split
  · rfl
  · exact size_setState ..

theorem conserves_amend (id : Nat) (key : String) (type : Ty) :
    shapes.Conserves (shapes.amend id key type) := by
  unfold amend
  dsimp only
  split
  · exact .refl shapes
  · exact conserves_setState rfl

theorem conserves_amendUnknown (id : Nat) : shapes.Conserves (shapes.amendUnknown id) := by
  unfold amendUnknown
  dsimp only
  split
  · exact .refl shapes
  · exact conserves_setState rfl

theorem conserves_freeze (id : Nat) : shapes.Conserves (shapes.freeze id) :=
  conserves_setState rfl

/-- Forwarding a shape takes away a representative. -/
theorem roots_setState_forward {id next : Nat} {s : ShapeState} (h : shapes.Has id)
    (hroot : shapes.IsRoot id) (hs : s.forward = some next) :
    (shapes.setState id s).roots + 1 = shapes.roots := by
  have hpos := roots_pos_of_isRoot h hroot
  rw [roots_setState h, hroot, hs]
  simp only [Option.isNone_none, Option.isNone_some, if_true, Bool.false_eq_true, if_false]
  omega

theorem roots_add {s : ShapeState} (hs : s.forward = none) :
    (shapes.add s).2.roots = shapes.roots + 1 := by
  simp [roots, add, hs]

/-- Forwarding two shapes to a fresh one makes one shape and takes away one representative. -/
theorem conserves_join (hf : shapes.Forest) {a b next : Nat} {s sa sb : ShapeState}
    (ha : shapes.Has a) (hb : shapes.Has b) (hroota : shapes.IsRoot a) (hrootb : shapes.IsRoot b)
    (hne : a ≠ b) (hs : s.forward = none) (hsa : sa.forward = some next)
    (hsb : sb.forward = some next) :
    shapes.Conserves (((shapes.add s).2.setState a sa).setState b sb) := by
  have hgrown := (evolves_add hf hs).grows
  have hroota' : (shapes.add s).2.IsRoot a := by
    rw [IsRoot, state_add_of_le _ _ ha.2]
    exact hroota
  have hrootb' : ((shapes.add s).2.setState a sa).IsRoot b := by
    rw [IsRoot, state_setState_of_ne _ (Ne.symm hne), state_add_of_le _ _ hb.2]
    exact hrootb
  have hhasb : ((shapes.add s).2.setState a sa).Has b := by
    simpa [Has] using hgrown.has hb
  have hfirst := roots_setState_forward (hgrown.has ha) hroota' hsa
  have hsecond := roots_setState_forward hhasb hrootb' hsb
  have hadd : (shapes.add s).2.roots = shapes.roots + 1 := roots_add hs
  unfold Conserves
  rw [size_setState, size_setState, size_add]
  omega

theorem conserves_merge (hf : shapes.Forest) {a b : Nat} (ha : shapes.Has a) (hb : shapes.Has b) :
    shapes.Conserves (shapes.merge a b).2 := by
  rcases merge_cases shapes a b with ⟨-, h⟩ | ⟨-, -, h⟩ | ⟨hne, -, -, h⟩
  · rw [h]
    exact .refl shapes
  · rw [h]
    exact .refl shapes
  · rw [h]
    exact conserves_join hf (hf.has_resolve ha) (hf.has_resolve hb) (hf.isRoot_resolve a)
      (hf.isRoot_resolve b) hne rfl rfl rfl

/-- A merge makes no shape unless its outcome is that shape. -/
theorem size_merge_or (shapes : Shapes) (a b : Nat) :
    (shapes.merge a b).2.states.size = shapes.states.size ∨
      (shapes.merge a b).1.representative? = some (shapes.states.size + 1) := by
  rcases merge_cases shapes a b with ⟨-, h⟩ | ⟨-, -, h⟩ | ⟨-, -, -, h⟩
  · exact .inl (by rw [h])
  · exact .inl (by rw [h])
  · exact .inr (by rw [h]; rfl)

/-! ## Growth without new shapes -/

namespace Grows

variable {before after : Shapes}

/-- Shapes that got no more have the forwards they had. -/
theorem forward_eq_of_size (hg : before.Grows after) (ha : after.Forest)
    (hsize : after.states.size = before.states.size) (id : Nat) :
    (after.state id).forward = (before.state id).forward := by
  cases hb : (before.state id).forward with
  | some next => exact hg.forward hb
  | none =>
    cases hnext : (after.state id).forward with
    | none => rfl
    | some next =>
      have hlt := hg.lt_forward hb hnext
      have hle := ha.forward_le hnext
      omega

theorem follow_eq_of_size (hg : before.Grows after) (ha : after.Forest)
    (hsize : after.states.size = before.states.size) (bound id : Nat) :
    after.follow bound id = before.follow bound id := by
  induction bound generalizing id with
  | zero => rfl
  | succ bound ih =>
    rw [follow, follow, hg.forward_eq_of_size ha hsize id]
    cases (before.state id).forward with
    | none => rfl
    | some next => exact ih next

/-- Shapes that got no more have the representatives they had. -/
theorem resolve_eq_of_size (hg : before.Grows after) (ha : after.Forest)
    (hsize : after.states.size = before.states.size) (id : Nat) :
    after.resolve id = before.resolve id := by
  rw [resolve, resolve, hsize, hg.follow_eq_of_size ha hsize]

end Grows
end Shapes
end AdaptiveScript
