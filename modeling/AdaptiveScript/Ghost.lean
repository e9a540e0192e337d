/-!
# Ghosts

A ghost is a value that is only spoken about.  It is told by the property that it alone has,
and a property is nothing that a program could hold, let alone look at.  So ghosts can be kept
wherever values can, they cost nothing, and no result depends on one.

Ghosts are made of values and of other ghosts (`Ghost.of`, `Ghost.map₂`).  What is said about a
ghost is said about the value that it stands for (`Ghost.get`).
-/

namespace AdaptiveScript

/-- A value that is only spoken about. -/
structure Ghost (α : Type) where
  /-- What holds of the value alone. -/
  is : α → Prop
  unique : ∃ a, is = fun b => b = a

namespace Ghost

variable {α β γ : Type}

/-- The ghost of a value. -/
@[inline] def of (a : α) : Ghost α :=
  ⟨fun b => b = a, a, rfl⟩

/-- The value that a ghost stands for. -/
noncomputable def get (g : Ghost α) : α :=
  g.unique.choose

/-- The ghost of what is made of two others. -/
@[inline] def map₂ (f : α → β → γ) (a : Ghost α) (b : Ghost β) : Ghost γ :=
  ⟨fun c => c = f a.get b.get, f a.get b.get, rfl⟩

theorem get_eq_of_is {g : Ghost α} {a : α} (h : g.is a) : g.get = a := by
  have hget := g.unique.choose_spec
  rw [hget] at h
  exact h.symm

@[simp] theorem get_of (a : α) : (of a).get = a :=
  get_eq_of_is rfl

@[simp] theorem get_map₂ (f : α → β → γ) (a : Ghost α) (b : Ghost β) :
    (map₂ f a b).get = f a.get b.get :=
  get_eq_of_is rfl

end Ghost
end AdaptiveScript
