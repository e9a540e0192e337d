import AdaptiveScript.Knowledge

/-!
# Shapes form a forest

Merging forwards two shapes to a fresh one, so forwards always lead to larger numbers and
every shape has a representative that is not forwarded.  `Shapes.Forest` is that
invariant, together with the rule that makes compiled code safe: a frozen shape is never
forwarded.

What every operation does to the shapes is summed up by `Shapes.Grows`: forwards stay,
frozen shapes stay as they are, and a representative that gets forwarded goes to a number
that did not exist before.  Everything later modules need about time follows from these
three rules alone:

* `Grows.resolve_resolve`: representatives found early can be resolved late;
* `Grows.resolve_congr`: shapes of one class stay in one class;
* `Grows.resolve_eq_of_frozen`, `Grows.layout_eq`: a frozen shape keeps its number and
  layout.
-/

namespace AdaptiveScript
namespace Shapes

/-- Some shape has the number. -/
def Has (shapes : Shapes) (id : Nat) : Prop :=
  0 < id ∧ id ≤ shapes.states.size

theorem state_of_not_has {shapes : Shapes} {id : Nat} (h : ¬ shapes.Has id) :
    shapes.state id = .blank := by
  cases id with
  | zero => rfl
  | succ index =>
    have hindex : shapes.states.size ≤ index := by
      unfold Has at h
      omega
    simp [state, Array.getD_eq_getD_getElem?, Array.getElem?_eq_none hindex]

/-- A shape that exists gets the state it is given. -/
theorem state_setState_of_has {shapes : Shapes} {id : Nat} (h : shapes.Has id) (s : ShapeState) :
    (shapes.setState id s).state id = s := by
  cases id with
  | zero => exact absurd h.1 (Nat.lt_irrefl 0)
  | succ index => exact state_setState_self h.2 s

@[simp] theorem size_setState (shapes : Shapes) (id : Nat) (s : ShapeState) :
    (shapes.setState id s).states.size = shapes.states.size := by
  cases id <;> simp [setState]

/-- Setting a state changes at most the state of that shape. -/
theorem state_setState_eq_or (shapes : Shapes) (id : Nat) (s : ShapeState) (other : Nat) :
    (shapes.setState id s).state other = shapes.state other ∨
      (other = id ∧ (shapes.setState id s).state other = s) := by
  by_cases hother : other = id
  · subst hother
    by_cases hhas : shapes.Has other
    · exact .inr ⟨rfl, state_setState_of_has hhas s⟩
    · left
      rw [state_of_not_has hhas, state_of_not_has]
      simpa [Has] using hhas
  · exact .inl (state_setState_of_ne _ hother s)

/-- No forward changes if the new state has the forward of the old one. -/
theorem forward_setState {shapes : Shapes} {id : Nat} {s : ShapeState}
    (hforward : s.forward = (shapes.state id).forward) (other : Nat) :
    ((shapes.setState id s).state other).forward = (shapes.state other).forward := by
  rcases state_setState_eq_or shapes id s other with h | ⟨rfl, h⟩
  · rw [h]
  · rw [h, hforward]

theorem state_add_of_le (shapes : Shapes) (s : ShapeState) {id : Nat}
    (h : id ≤ shapes.states.size) : (shapes.add s).2.state id = shapes.state id := by
  cases id with
  | zero => rfl
  | succ index =>
    have hne : index ≠ shapes.states.size := by omega
    simp [state, add, Array.getD_eq_getD_getElem?, Array.getElem?_push, hne]

@[simp] theorem size_add (shapes : Shapes) (s : ShapeState) :
    (shapes.add s).2.states.size = shapes.states.size + 1 := by
  simp [add]

/-! ## The invariant -/

/-- Forwards lead to larger numbers that exist, and frozen shapes are not forwarded. -/
structure Forest (shapes : Shapes) : Prop where
  lt_forward : ∀ {id next : Nat}, (shapes.state id).forward = some next → id < next
  forward_le : ∀ {id next : Nat}, (shapes.state id).forward = some next →
    next ≤ shapes.states.size
  forward_of_frozen : ∀ {id : Nat}, (shapes.state id).frozen = true → (shapes.state id).forward = none

/-- A shape that is not forwarded. -/
def IsRoot (shapes : Shapes) (id : Nat) : Prop :=
  (shapes.state id).forward = none

namespace Forest

variable {shapes : Shapes}

/-- Following enough forwards ends at a root. -/
theorem isRoot_follow (hf : shapes.Forest) :
    ∀ (bound : Nat) (id : Nat), shapes.states.size ≤ id + bound →
      shapes.IsRoot (shapes.follow bound id) := by
  intro bound
  induction bound with
  | zero =>
    intro id hbound
    cases hnext : (shapes.state id).forward with
    | none => exact hnext
    | some next =>
      have hlt := hf.lt_forward hnext
      have hle := hf.forward_le hnext
      omega
  | succ bound ih =>
    intro id hbound
    unfold follow
    cases hnext : (shapes.state id).forward with
    | none => exact hnext
    | some next =>
      have hlt := hf.lt_forward hnext
      exact ih next (by omega)

/-- Following one forward more than needed changes nothing. -/
theorem follow_eq_follow (hf : shapes.Forest) :
    ∀ (bound more : Nat) (id : Nat), shapes.states.size ≤ id + bound →
      shapes.follow (bound + more) id = shapes.follow bound id := by
  intro bound
  induction bound with
  | zero =>
    intro more id hbound
    have hroot : shapes.IsRoot id := hf.isRoot_follow 0 id hbound
    cases more with
    | zero => rfl
    | succ more =>
      rw [Nat.zero_add, follow, follow, hroot]
  | succ bound ih =>
    intro more id hbound
    rw [Nat.add_right_comm, follow, follow]
    cases hnext : (shapes.state id).forward with
    | none => rfl
    | some next =>
      have hlt := hf.lt_forward hnext
      exact ih more next (by omega)

/-- A representative is not forwarded. -/
theorem isRoot_resolve (hf : shapes.Forest) (id : Nat) : shapes.IsRoot (shapes.resolve id) :=
  hf.isRoot_follow _ id (by omega)

theorem resolve_of_forward (hf : shapes.Forest) {id next : Nat}
    (h : (shapes.state id).forward = some next) : shapes.resolve id = shapes.resolve next := by
  have hlt := hf.lt_forward h
  have hle := hf.forward_le h
  obtain ⟨bound, hbound⟩ : ∃ bound, shapes.states.size = bound + 1 :=
    ⟨shapes.states.size - 1, by omega⟩
  have hstep : shapes.resolve id = shapes.follow bound next := by
    rw [resolve, hbound, follow, h]
  have hmore : shapes.resolve next = shapes.follow (bound + 1) next := by
    rw [resolve, hbound]
  rw [hstep, hmore, hf.follow_eq_follow bound 1 next (by omega)]

end Forest

theorem resolve_of_isRoot {shapes : Shapes} {id : Nat} (h : shapes.IsRoot id) :
    shapes.resolve id = id := by
  unfold resolve
  cases shapes.states.size with
  | zero => rfl
  | succ bound => rw [follow, h]

namespace Forest

variable {shapes : Shapes}

/-- Induction along forwards, from the representative downwards. -/
theorem induction (hf : shapes.Forest) {motive : Nat → Prop}
    (root : ∀ id, shapes.IsRoot id → motive id)
    (step : ∀ id next, (shapes.state id).forward = some next → motive next → motive id)
    (id : Nat) : motive id := by
  induction h : shapes.states.size - id using Nat.strongRecOn generalizing id with
  | ind measure ih =>
    cases hnext : (shapes.state id).forward with
    | none => exact root id hnext
    | some next =>
      have hlt := hf.lt_forward hnext
      have hle := hf.forward_le hnext
      exact step id next hnext (ih (shapes.states.size - next) (by omega) next rfl)

theorem le_resolve (hf : shapes.Forest) (id : Nat) : id ≤ shapes.resolve id := by
  induction id using hf.induction with
  | root id h => exact Nat.le_of_eq (resolve_of_isRoot h).symm
  | step id next h ih =>
    rw [hf.resolve_of_forward h]
    have hlt := hf.lt_forward h
    omega

theorem resolve_resolve (hf : shapes.Forest) (id : Nat) :
    shapes.resolve (shapes.resolve id) = shapes.resolve id :=
  resolve_of_isRoot (hf.isRoot_resolve id)

theorem has_resolve (hf : shapes.Forest) {id : Nat} (h : shapes.Has id) :
    shapes.Has (shapes.resolve id) := by
  induction id using hf.induction with
  | root id hroot => rwa [resolve_of_isRoot hroot]
  | step id next hnext ih =>
    rw [hf.resolve_of_forward hnext]
    have hlt := hf.lt_forward hnext
    have hle := hf.forward_le hnext
    exact ih ⟨by omega, hle⟩

theorem resolve_of_frozen (hf : shapes.Forest) {id : Nat}
    (h : (shapes.state id).frozen = true) : shapes.resolve id = id :=
  resolve_of_isRoot (hf.forward_of_frozen h)

end Forest

theorem has_of_frozen {shapes : Shapes} {id : Nat} (h : (shapes.state id).frozen = true) :
    shapes.Has id := by
  by_cases hhas : shapes.Has id
  · exact hhas
  · rw [state_of_not_has hhas] at h
    cases h

theorem isFrozen_of_frozen {shapes : Shapes} (hf : shapes.Forest) {id : Nat}
    (h : (shapes.state id).frozen = true) : shapes.isFrozen id = true := by
  rw [isFrozen, representative, hf.resolve_of_frozen h, h]

/-! ## Growth -/

/-- What time does to shapes. -/
structure Grows (before after : Shapes) : Prop where
  size_le : before.states.size ≤ after.states.size
  /-- Forwards stay. -/
  forward : ∀ {id next : Nat}, (before.state id).forward = some next →
    (after.state id).forward = some next
  /-- Frozen shapes stay as they are. -/
  frozen : ∀ {id : Nat}, (before.state id).frozen = true → after.state id = before.state id
  /-- New forwards lead to new shapes. -/
  lt_forward : ∀ {id next : Nat}, before.IsRoot id → (after.state id).forward = some next →
    before.states.size < next

namespace Grows

theorem refl (shapes : Shapes) : shapes.Grows shapes where
  size_le := Nat.le_refl _
  forward h := h
  frozen _ := rfl
  lt_forward hroot h := by
    rw [IsRoot, h] at hroot
    cases hroot

theorem trans {a b c : Shapes} (hab : a.Grows b) (hbc : b.Grows c) : a.Grows c where
  size_le := Nat.le_trans hab.size_le hbc.size_le
  forward h := hbc.forward (hab.forward h)
  frozen {id} h := by
    have hb : (b.state id).frozen = true := by rw [hab.frozen h, h]
    rw [hbc.frozen hb, hab.frozen h]
  lt_forward {id next} hroot h := by
    cases hb : (b.state id).forward with
    | none =>
      have hlt := hbc.lt_forward hb h
      have hle := hab.size_le
      omega
    | some mid =>
      have hmid := hbc.forward hb
      rw [h] at hmid
      cases hmid
      exact hab.lt_forward hroot hb

variable {before after : Shapes}

theorem has (hg : before.Grows after) {id : Nat} (h : before.Has id) : after.Has id :=
  ⟨h.1, Nat.le_trans h.2 hg.size_le⟩

theorem frozen_of_frozen (hg : before.Grows after) {id : Nat}
    (h : (before.state id).frozen = true) : (after.state id).frozen = true := by
  rw [hg.frozen h, h]

/-- A representative found early can be resolved late. -/
theorem resolve_resolve (hg : before.Grows after) (hb : before.Forest) (ha : after.Forest)
    (id : Nat) : after.resolve (before.resolve id) = after.resolve id := by
  induction id using hb.induction with
  | root id h => rw [resolve_of_isRoot h]
  | step id next h ih =>
    rw [hb.resolve_of_forward h, ih, ha.resolve_of_forward (hg.forward h)]

/-- Shapes of one class stay in one class. -/
theorem resolve_congr (hg : before.Grows after) (hb : before.Forest) (ha : after.Forest)
    {a b : Nat} (h : before.resolve a = before.resolve b) :
    after.resolve a = after.resolve b := by
  rw [← hg.resolve_resolve hb ha a, h, hg.resolve_resolve hb ha b]

/-- A frozen representative stays the representative. -/
theorem resolve_eq_of_frozen (hg : before.Grows after) (hb : before.Forest) (ha : after.Forest)
    {id : Nat} (h : before.isFrozen id = true) : after.resolve id = before.resolve id := by
  rw [← hg.resolve_resolve hb ha id]
  exact ha.resolve_of_frozen (hg.frozen_of_frozen h)

theorem isFrozen (hg : before.Grows after) (hb : before.Forest) (ha : after.Forest)
    {id : Nat} (h : before.isFrozen id = true) : after.isFrozen id = true := by
  rw [Shapes.isFrozen, representative, hg.resolve_eq_of_frozen hb ha h]
  exact hg.frozen_of_frozen h

/-- A frozen shape keeps its layout. -/
theorem layout_eq (hg : before.Grows after) (hb : before.Forest) (ha : after.Forest)
    {id : Nat} (h : before.isFrozen id = true) : after.layout id = before.layout id := by
  have hstate : after.state (before.resolve id) = before.state (before.resolve id) := hg.frozen h
  simp only [layout, keys, spills, representative, hg.resolve_eq_of_frozen hb ha h, hstate]

end Grows

/-! ## Every operation lets the shapes grow -/

/-- The shapes after an operation: still a forest, and grown from those before. -/
structure Evolves (before after : Shapes) : Prop where
  forest : after.Forest
  grows : before.Grows after

namespace Evolves

theorem refl {shapes : Shapes} (hf : shapes.Forest) : shapes.Evolves shapes :=
  ⟨hf, Grows.refl shapes⟩

theorem trans {a b c : Shapes} (hab : a.Evolves b) (hbc : b.Evolves c) : a.Evolves c :=
  ⟨hbc.forest, hab.grows.trans hbc.grows⟩

end Evolves

/-- Shapes about which nothing is known form a forest. -/
theorem forest_of_blank {shapes : Shapes} (h : ∀ id, shapes.state id = .blank) :
    shapes.Forest where
  lt_forward hnext := by
    rw [h] at hnext
    cases hnext
  forward_le hnext := by
    rw [h] at hnext
    cases hnext
  forward_of_frozen hfrozen := by
    rw [h] at hfrozen
    cases hfrozen

variable {shapes : Shapes}

/-- Changing what is known about a shape, but not where it is forwarded, lets the shapes
grow if the shape was not frozen before or nothing changes. -/
theorem evolves_setState (hf : shapes.Forest) {id : Nat} {s : ShapeState}
    (hforward : s.forward = (shapes.state id).forward)
    (hfrozen : (shapes.state id).frozen = true → s = shapes.state id)
    (hroot : s.frozen = true → s.forward = none) : shapes.Evolves (shapes.setState id s) := by
  have hstate := state_setState_eq_or shapes id s
  have hforwards := forward_setState hforward
  refine ⟨⟨?_, ?_, ?_⟩, ⟨?_, ?_, ?_, ?_⟩⟩
  · intro other next h
    rw [hforwards] at h
    exact hf.lt_forward h
  · intro other next h
    rw [hforwards] at h
    rw [size_setState]
    exact hf.forward_le h
  · intro other h
    rcases hstate other with hs | ⟨rfl, hs⟩
    · rw [hs] at h ⊢
      exact hf.forward_of_frozen h
    · rw [hs] at h ⊢
      exact hroot h
  · exact Nat.le_of_eq (size_setState shapes id s).symm
  · intro other next h
    rw [hforwards, h]
  · intro other h
    rcases hstate other with hs | ⟨rfl, hs⟩
    · exact hs
    · rw [hs, hfrozen h]
  · intro other next hother h
    rw [hforwards, hother] at h
    cases h

theorem evolves_amend (hf : shapes.Forest) (id : Nat) (key : String) (type : Ty) :
    shapes.Evolves (shapes.amend id key type) := by
  unfold amend
  dsimp only
  split
  · exact .refl hf
  · next hfrozen =>
    exact evolves_setState hf rfl (fun h => absurd h hfrozen) (fun h => absurd h hfrozen)

theorem evolves_amendUnknown (hf : shapes.Forest) (id : Nat) :
    shapes.Evolves (shapes.amendUnknown id) := by
  unfold amendUnknown
  dsimp only
  split
  · exact .refl hf
  · next hfrozen =>
    exact evolves_setState hf rfl (fun h => absurd h hfrozen) (fun h => absurd h hfrozen)

theorem evolves_freeze (hf : shapes.Forest) (id : Nat) : shapes.Evolves (shapes.freeze id) := by
  refine evolves_setState hf rfl (fun h => ?_) (fun _ => hf.isRoot_resolve id)
  rw [← h]

/-- Freezing freezes. -/
theorem isFrozen_freeze (hf : shapes.Forest) {id : Nat} (h : shapes.Has id) :
    (shapes.freeze id).isFrozen id = true := by
  have hev := evolves_freeze hf id
  have hstate : (shapes.freeze id).state (shapes.resolve id) =
      { shapes.state (shapes.resolve id) with frozen := true } :=
    state_setState_of_has (hf.has_resolve h) _
  have hres : (shapes.freeze id).resolve id = shapes.resolve id := by
    rw [← hev.grows.resolve_resolve hf hev.forest]
    exact hev.forest.resolve_of_frozen (by rw [hstate])
  rw [isFrozen, representative, hres, hstate]

/-- Freezing leaves the layout as it is. -/
theorem layout_freeze (hf : shapes.Forest) {id : Nat} (h : shapes.Has id) :
    (shapes.freeze id).layout id = shapes.layout id := by
  have hev := evolves_freeze hf id
  have hstate : (shapes.freeze id).state (shapes.resolve id) =
      { shapes.state (shapes.resolve id) with frozen := true } :=
    state_setState_of_has (hf.has_resolve h) _
  have hres : (shapes.freeze id).resolve id = shapes.resolve id := by
    rw [← hev.grows.resolve_resolve hf hev.forest]
    exact hev.forest.resolve_of_frozen (by rw [hstate])
  simp only [layout, keys, spills, representative, hres, hstate]

theorem evolves_add (hf : shapes.Forest) {s : ShapeState} (hforward : s.forward = none) :
    shapes.Evolves (shapes.add s).2 := by
  have hstate (id : Nat) : (shapes.add s).2.state id = shapes.state id ∨
      (¬ shapes.Has id ∧ ((shapes.add s).2.state id).forward = none) := by
    by_cases hle : id ≤ shapes.states.size
    · exact .inl (state_add_of_le shapes s hle)
    · refine .inr ⟨fun h => hle h.2, ?_⟩
      by_cases hnew : id = shapes.states.size + 1
      · rw [hnew]
        exact (congrArg ShapeState.forward (state_add shapes s)).trans hforward
      · rw [state_of_not_has (by rw [Has, size_add]; omega)]
        rfl
  refine ⟨⟨?_, ?_, ?_⟩, ⟨?_, ?_, ?_, ?_⟩⟩
  · intro id next h
    rcases hstate id with hs | ⟨-, hs⟩
    · exact hf.lt_forward (hs ▸ h)
    · rw [hs] at h
      cases h
  · intro id next h
    rw [size_add]
    rcases hstate id with hs | ⟨-, hs⟩
    · exact Nat.le_succ_of_le (hf.forward_le (hs ▸ h))
    · rw [hs] at h
      cases h
  · intro id h
    rcases hstate id with hs | ⟨-, hs⟩
    · rw [hs] at h ⊢
      exact hf.forward_of_frozen h
    · exact hs
  · rw [size_add]
    exact Nat.le_succ _
  · intro id next h
    have hle : id ≤ shapes.states.size := by
      have hlt := hf.lt_forward h
      have hnext := hf.forward_le h
      omega
    rw [state_add_of_le shapes s hle, h]
  · intro id h
    exact state_add_of_le shapes s (has_of_frozen h).2
  · intro id next hroot h
    rcases hstate id with hs | ⟨-, hs⟩
    · rw [hs, hroot] at h
      cases h
    · rw [hs] at h
      cases h

/-- Forwarding a representative to a shape made since `base` lets the shapes grow. -/
theorem evolves_forward {base mid : Shapes} (h : base.Evolves mid) {id next : Nat}
    {s : ShapeState} (hroot : mid.IsRoot id) (hfrozen : (mid.state id).frozen = false)
    (hs : s = { mid.state id with forward := some next }) (hlt : id < next)
    (hnew : base.states.size < next) (hle : next ≤ mid.states.size) :
    base.Evolves (mid.setState id s) := by
  have hforward : s.forward = some next := by rw [hs]
  have hfree : s.frozen = false := by rw [hs, ← hfrozen]
  have hstate := state_setState_eq_or mid id s
  refine ⟨⟨?_, ?_, ?_⟩, ⟨?_, ?_, ?_, ?_⟩⟩
  · intro other target ht
    rcases hstate other with hs' | ⟨rfl, hs'⟩
    · exact h.forest.lt_forward (hs' ▸ ht)
    · rw [hs', hforward] at ht
      cases ht
      exact hlt
  · intro other target ht
    rw [size_setState]
    rcases hstate other with hs' | ⟨rfl, hs'⟩
    · exact h.forest.forward_le (hs' ▸ ht)
    · rw [hs', hforward] at ht
      cases ht
      exact hle
  · intro other ht
    rcases hstate other with hs' | ⟨rfl, hs'⟩
    · rw [hs'] at ht ⊢
      exact h.forest.forward_of_frozen ht
    · rw [hs', hfree] at ht
      cases ht
  · rw [size_setState]
    exact h.grows.size_le
  · intro other target ht
    have hmid := h.grows.forward ht
    rcases hstate other with hs' | ⟨rfl, -⟩
    · rw [hs', hmid]
    · rw [hroot] at hmid
      cases hmid
  · intro other ht
    have hmid := h.grows.frozen_of_frozen ht
    rcases hstate other with hs' | ⟨rfl, -⟩
    · rw [hs', h.grows.frozen ht]
    · rw [hfrozen] at hmid
      cases hmid
  · intro other target hother ht
    rcases hstate other with hs' | ⟨rfl, hs'⟩
    · exact h.grows.lt_forward hother (hs' ▸ ht)
    · rw [hs', hforward] at ht
      cases ht
      exact hnew

/-- Forwarding two unfrozen representatives to a fresh shape, which is what a merge does. -/
theorem evolves_join (hf : shapes.Forest) {a b : Nat} {s : ShapeState} (ha : shapes.Has a)
    (hb : shapes.Has b) (hroota : shapes.IsRoot a) (hrootb : shapes.IsRoot b) (hne : a ≠ b)
    (hfreea : (shapes.state a).frozen = false) (hfreeb : (shapes.state b).frozen = false)
    (hs : s.forward = none) :
    let joined := ((shapes.add s).2.setState a
      { shapes.state a with forward := some (shapes.add s).1 }).setState b
      { shapes.state b with forward := some (shapes.add s).1 }
    shapes.Evolves joined ∧ joined.resolve a = (shapes.add s).1 ∧
      joined.resolve b = (shapes.add s).1 := by
  intro joined
  have hgrown := evolves_add hf hs
  have hstatea : (shapes.add s).2.state a = shapes.state a := state_add_of_le _ _ ha.2
  have hfirst := evolves_forward (s := { shapes.state a with forward := some (shapes.add s).1 })
    hgrown (by rw [IsRoot, hstatea]; exact hroota) (hstatea ▸ hfreea) (by rw [hstatea]; rfl)
    (Nat.lt_succ_of_le ha.2) (Nat.lt_succ_self _) (Nat.le_of_eq (size_add shapes s).symm)
  have hstateb : ((shapes.add s).2.setState a
      { shapes.state a with forward := some (shapes.add s).1 }).state b = shapes.state b := by
    rw [state_setState_of_ne _ (Ne.symm hne), state_add_of_le _ _ hb.2]
  have hboth := evolves_forward (s := { shapes.state b with forward := some (shapes.add s).1 })
    hfirst (by rw [IsRoot, hstateb]; exact hrootb) (hstateb ▸ hfreeb) (by rw [hstateb]; rfl)
    (Nat.lt_succ_of_le hb.2) (Nat.lt_succ_self _)
    (Nat.le_of_eq (by rw [size_setState, size_add]))
  have hgrownHas {id : Nat} (h : shapes.Has id) : (shapes.add s).2.Has id := hgrown.grows.has h
  have hjoineda : (joined.state a).forward = some (shapes.add s).1 := by
    rw [state_setState_of_ne _ hne, state_setState_of_has (hgrownHas ha)]
  have hjoinedb : (joined.state b).forward = some (shapes.add s).1 := by
    rw [state_setState_of_has (by simpa [Has] using hgrownHas hb)]
  have hroot : joined.IsRoot (shapes.add s).1 := by
    have hneb : (shapes.add s).1 ≠ b := Nat.ne_of_gt (Nat.lt_succ_of_le hb.2)
    have hnea : (shapes.add s).1 ≠ a := Nat.ne_of_gt (Nat.lt_succ_of_le ha.2)
    rw [IsRoot, state_setState_of_ne _ hneb, state_setState_of_ne _ hnea, state_add, hs]
  refine ⟨hboth, ?_, ?_⟩
  · rw [hboth.forest.resolve_of_forward hjoineda, resolve_of_isRoot hroot]
  · rw [hboth.forest.resolve_of_forward hjoinedb, resolve_of_isRoot hroot]

/-- What is known about the shape that two others are merged into. -/
def joint (shapes : Shapes) (ra rb : Nat) : ShapeState :=
  { keys := unionKeys (shapes.state (min ra rb)).keys (shapes.state (max ra rb)).keys
    spills := (shapes.state (min ra rb)).spills || (shapes.state (max ra rb)).spills
    frozen := false
    forward := none }

/-- Two shapes are the same already, or one of them is frozen and nothing happens, or both
are forwarded to a fresh shape. -/
theorem merge_cases (shapes : Shapes) (a b : Nat) :
    let ra := shapes.resolve a
    let rb := shapes.resolve b
    (ra = rb ∧ shapes.merge a b = (.same ra, shapes)) ∨
    (ra ≠ rb ∧ (shapes.isFrozen a || shapes.isFrozen b) = true ∧
      shapes.merge a b = (.refused, shapes)) ∨
    (ra ≠ rb ∧ shapes.isFrozen a = false ∧ shapes.isFrozen b = false ∧
      shapes.merge a b = (.joined ra rb (shapes.add (shapes.joint ra rb)).1,
        ((shapes.add (shapes.joint ra rb)).2.setState ra
          { shapes.state ra with forward := some (shapes.add (shapes.joint ra rb)).1 }).setState rb
          { shapes.state rb with forward := some (shapes.add (shapes.joint ra rb)).1 })) := by
  intro ra rb
  -- the order of the two numbers does not matter for whether one of them is frozen
  have hfrozen : ((shapes.state (min ra rb)).frozen || (shapes.state (max ra rb)).frozen) =
      (shapes.isFrozen a || shapes.isFrozen b) := by
    rcases Nat.le_total ra rb with hle | hle
    · rw [Nat.min_eq_left hle, Nat.max_eq_right hle]
      rfl
    · rw [Nat.min_eq_right hle, Nat.max_eq_left hle, Bool.or_comm]
      rfl
  by_cases hsame : ra = rb
  · exact .inl ⟨hsame, if_pos hsame⟩
  · refine .inr ?_
    by_cases hor : (shapes.isFrozen a || shapes.isFrozen b) = true
    · exact .inl ⟨hsame, hor, (if_neg hsame).trans (if_pos (hfrozen.trans hor))⟩
    · have hfree : shapes.isFrozen a = false ∧ shapes.isFrozen b = false := by simpa using hor
      exact .inr ⟨hsame, hfree.1, hfree.2,
        (if_neg hsame).trans (if_neg fun h => hor (hfrozen.symm.trans h))⟩

/-- What merging two shapes does: the shapes grow, and unless the merge is refused both
have the same representative afterwards. -/
theorem evolves_merge (hf : shapes.Forest) {a b : Nat} (ha : shapes.Has a) (hb : shapes.Has b) :
    shapes.Evolves (shapes.merge a b).2 ∧
      ∀ rep, (shapes.merge a b).1.representative? = some rep →
        (shapes.merge a b).2.resolve a = rep ∧ (shapes.merge a b).2.resolve b = rep := by
  rcases merge_cases shapes a b with ⟨hsame, h⟩ | ⟨-, -, h⟩ | ⟨hne, hfreea, hfreeb, h⟩
  · rw [h]
    refine ⟨.refl hf, fun rep hrep => ?_⟩
    cases hrep
    exact ⟨rfl, hsame.symm⟩
  · rw [h]
    exact ⟨.refl hf, fun rep hrep => by cases hrep⟩
  · rw [h]
    obtain ⟨hev, hra, hrb⟩ := evolves_join hf (hf.has_resolve ha) (hf.has_resolve hb)
      (hf.isRoot_resolve a) (hf.isRoot_resolve b) hne hfreea hfreeb
      (s := shapes.joint (shapes.resolve a) (shapes.resolve b)) rfl
    refine ⟨hev, fun rep hrep => ?_⟩
    cases hrep
    rw [← hev.grows.resolve_resolve hf hev.forest a, ← hev.grows.resolve_resolve hf hev.forest b]
    exact ⟨hra, hrb⟩

end Shapes

/-! ## What merging and compiling teach -/

namespace Learn

/-- Merging; the note that a merge leaves changes neither shapes nor return types. -/
theorem run_mergeShapes (k : Knowledge) (a b : ShapeId) :
    ((mergeShapes a b).run k).1 = (k.shapes.merge a b).1.representative? ∧
      ((mergeShapes a b).run k).2.shapes = (k.shapes.merge a b).2 ∧
      ((mergeShapes a b).run k).2.returns = k.returns := by
  simp only [mergeShapes]
  cases hmerge : (k.shapes.merge a b).1 <;> simp [hmerge, note] <;> exact ⟨rfl, rfl, rfl⟩

/-- Compiling gives the layout that the shape has, and freezes it unless it is frozen. -/
theorem run_compileShape (k : Knowledge) (shape : ShapeId) :
    ((compileShape shape).run k).1 = k.shapes.layout shape ∧
      ((compileShape shape).run k).2.shapes =
        (if k.shapes.isFrozen shape then k.shapes else k.shapes.freeze shape) ∧
      ((compileShape shape).run k).2.returns = k.returns := by
  cases hfrozen : k.shapes.isFrozen shape <;> simp [compileShape, hfrozen] <;>
    exact ⟨rfl, rfl, rfl⟩

theorem run_compileShape_of_frozen {k : Knowledge} {shape : ShapeId}
    (hfrozen : k.shapes.isFrozen shape = true) :
    (compileShape shape).run k = (k.shapes.layout shape, k) := by
  simp [compileShape, hfrozen]
  rfl

theorem run_mergeShapes_of_same {k : Knowledge} {a b rep : ShapeId}
    (h : k.shapes.merge a b = (.same rep, k.shapes)) :
    (mergeShapes a b).run k = (some rep, k) := by
  simp [mergeShapes, h]
  rfl

theorem run_mergeShapes_of_refused {k : Knowledge} {a b : ShapeId}
    (h : k.shapes.merge a b = (.refused, k.shapes)) : (mergeShapes a b).run k = (none, k) := by
  simp [mergeShapes, h]
  rfl

end Learn
end AdaptiveScript
