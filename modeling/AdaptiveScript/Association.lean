/-!
# Association lists

A finite map as a list of keys with their values, of which the first entry of a key
counts.  Removing a key removes all its entries, so what was hidden does not come back.
-/

namespace AdaptiveScript
namespace Association

variable {α β : Type} [BEq α]

/-- The entries without those of one key. -/
def without (key : α) (entries : List (α × β)) : List (α × β) :=
  entries.filter fun entry => entry.1 != key

variable [LawfulBEq α]

@[simp] theorem lookup_without_self (key : α) (entries : List (α × β)) :
    (without key entries).lookup key = none := by
  induction entries with
  | nil => rfl
  | cons entry rest ih =>
    obtain ⟨k, v⟩ := entry
    unfold without at ih ⊢
    by_cases hk : k = key
    · rw [List.filter_cons_of_neg (by simpa using hk)]
      exact ih
    · have hkey : (key == k) = false := by simpa using Ne.symm hk
      rw [List.filter_cons_of_pos (by simpa using hk), List.lookup_cons, hkey]
      exact ih

theorem lookup_without_of_ne {key other : α} (h : other ≠ key) (entries : List (α × β)) :
    (without key entries).lookup other = entries.lookup other := by
  induction entries with
  | nil => rfl
  | cons entry rest ih =>
    obtain ⟨k, v⟩ := entry
    unfold without at ih ⊢
    by_cases hk : k = key
    · -- the entry is dropped, and `other` would not have stopped at it
      have hother : (other == k) = false := by simpa [hk] using h
      rw [List.filter_cons_of_neg (by simpa using hk), ih, List.lookup_cons, hother]
    · rw [List.filter_cons_of_pos (by simpa using hk), List.lookup_cons, List.lookup_cons, ih]

end Association
end AdaptiveScript
