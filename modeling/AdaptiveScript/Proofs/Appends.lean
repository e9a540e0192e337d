/-!
# Lists that grow at the end

Call sites, caches and engines are numbered in the order in which they are made, and a new one
has not counted anything yet.  So making some of them is appending blank elements to a list
(`Appends`): old numbers keep their meaning, and sums over the list stay the same.
-/

namespace AdaptiveScript

variable {α β : Type}

/-- A list grows at its end, by blank elements. -/
def Appends (blank : α → Prop) (before after : List α) : Prop :=
  ∃ rest, after = before ++ rest ∧ ∀ a ∈ rest, blank a

namespace Appends

variable {blank : α → Prop}

theorem refl (as : List α) : Appends blank as as :=
  ⟨[], by simp, by simp⟩

theorem of_eq {as bs : List α} (h : bs = as) : Appends blank as bs := by
  rw [h]
  exact refl as

theorem trans {as bs cs : List α} (hab : Appends blank as bs) (hbc : Appends blank bs cs) :
    Appends blank as cs := by
  obtain ⟨new, rfl, hnew⟩ := hab
  obtain ⟨newer, rfl, hnewer⟩ := hbc
  refine ⟨new ++ newer, List.append_assoc .., ?_⟩
  intro a ha
  rcases List.mem_append.mp ha with ha | ha
  · exact hnew a ha
  · exact hnewer a ha

/-- One more element. -/
theorem concat (as : List α) {a : α} (h : blank a) : Appends blank as (as ++ [a]) :=
  ⟨[a], rfl, by simpa using h⟩

theorem length_le {as bs : List α} (h : Appends blank as bs) : as.length ≤ bs.length := by
  obtain ⟨new, rfl, -⟩ := h
  simp

/-- Old numbers keep their meaning. -/
theorem getElem? {as bs : List α} (h : Appends blank as bs) {i : Nat} (hi : i < as.length) :
    bs[i]? = as[i]? := by
  obtain ⟨new, rfl, -⟩ := h
  exact List.getElem?_append_left hi

/-- New numbers stand for blank elements. -/
theorem blank_of_getElem? {as bs : List α} (h : Appends blank as bs) {i : Nat} {b : α}
    (hi : as.length ≤ i) (hb : bs[i]? = some b) : blank b := by
  obtain ⟨new, rfl, hnew⟩ := h
  rw [List.getElem?_append_right hi] at hb
  exact hnew b (List.mem_of_getElem? hb)

/-- A number that means nothing yet may as well mean something blank. -/
theorem getD_eq {as bs : List α} {b : α} (h : Appends (· = b) as bs) (i : Nat) :
    bs[i]?.getD b = as[i]?.getD b := by
  by_cases hi : i < as.length
  · rw [h.getElem? hi]
  · rw [List.getElem?_eq_none (Nat.le_of_not_lt hi)]
    cases hat : bs[i]? with
    | none => rfl
    | some a => exact h.blank_of_getElem? (Nat.le_of_not_lt hi) hat

/-- What is read off the elements grows as they do. -/
theorem map {as bs : List α} (h : Appends blank as bs) {f : α → β} {blank' : β → Prop}
    (hf : ∀ a, blank a → blank' (f a)) : Appends blank' (as.map f) (bs.map f) := by
  obtain ⟨new, rfl, hnew⟩ := h
  refine ⟨new.map f, List.map_append, ?_⟩
  intro b hb
  obtain ⟨a, ha, rfl⟩ := List.mem_map.mp hb
  exact hf a (hnew a ha)

end Appends

/-- What is read off the elements changes as they do. -/
theorem map_modify {f : α → β} {g : α → α} {k : β → β} (h : ∀ a, f (g a) = k (f a)) (as : List α)
    (i : Nat) : (as.modify i g).map f = (as.map f).modify i k := by
  apply List.ext_getElem?
  intro j
  by_cases hj : i = j
  · subst hj
    cases hat : as[i]? <;> simp [hat, h]
  · simp [hj]

/-! ## Sums -/

/-- The sum of a quantity over a list. -/
def total (f : α → Nat) : List α → Nat
  | [] => 0
  | a :: as => f a + total f as

theorem total_append (f : α → Nat) (as bs : List α) :
    total f (as ++ bs) = total f as + total f bs := by
  induction as with
  | nil => simp [total]
  | cons a as ih => simp [total, ih, Nat.add_assoc]

theorem total_map (f : β → Nat) (g : α → β) (as : List α) :
    total f (as.map g) = total (fun a => f (g a)) as := by
  induction as with
  | nil => rfl
  | cons a as ih => simp [total, ih]

/-- What blank elements have none of stays the same. -/
theorem Appends.total_eq {blank : α → Prop} {as bs : List α} (h : Appends blank as bs) {f : α → Nat}
    (hf : ∀ a, blank a → f a = 0) : total f bs = total f as := by
  obtain ⟨new, rfl, hnew⟩ := h
  have hzero : total f new = 0 := by
    induction new with
    | nil => rfl
    | cons a new ih =>
      rw [total, hf a (hnew a (by simp)), ih fun b hb => hnew b (List.mem_cons_of_mem a hb)]
  rw [total_append, hzero, Nat.add_zero]

/-- One element gets more of a quantity. -/
theorem total_modify (f : α → Nat) {g : α → α} {k : Nat} (hg : ∀ a, f (g a) = f a + k) :
    ∀ (as : List α) {i : Nat}, i < as.length → total f (as.modify i g) = total f as + k := by
  intro as
  induction as with
  | nil =>
    intro i hi
    cases hi
  | cons a as ih =>
    intro i hi
    cases i with
    | zero =>
      simp only [List.modify_zero_cons, total, hg]
      omega
    | succ i =>
      have := ih (Nat.lt_of_succ_lt_succ hi)
      simp only [List.modify_succ_cons, total]
      omega

/-- One element is replaced by one that has more of a quantity. -/
theorem total_set (f : α → Nat) {a b : α} {k : Nat} (hb : f b = f a + k) :
    ∀ {as : List α} {i : Nat}, as[i]? = some a → total f (as.set i b) = total f as + k := by
  intro as
  induction as with
  | nil =>
    intro i hi
    cases hi
  | cons c as ih =>
    intro i hi
    cases i with
    | zero =>
      cases hi
      simp only [List.set_cons_zero, total, hb]
      omega
    | succ i =>
      have := ih (i := i) hi
      simp only [List.set_cons_succ, total]
      omega

end AdaptiveScript
