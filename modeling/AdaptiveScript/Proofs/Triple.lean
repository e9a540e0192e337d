import AdaptiveScript.Journal

/-!
# Computations that change a state and may fail

Emission, compilation and linking are computations of one kind: they change a state, they
may fail, and what they changed stays when they fail.  `Yields` is what is said about such a
computation from one start state, in three parts.  Whatever the outcome, the state after it
is related to the state before.  If there is a result, it has the stated property.  And if
`ok` holds, there is a result.

Less is said by `Fails` (why there is no result), `Delivers` (what is true of results from any
state) and `Preserves` (the same for states that satisfy an invariant, which is kept).
-/

namespace AdaptiveScript

variable {σ ε α β : Type}

/-- The outcome of two computations in a row. -/
theorem run_bind (x : ExceptT ε (StateM σ) α) (f : α → ExceptT ε (StateM σ) β) (s : σ) :
    (x >>= f).run.run s = match x.run.run s with
      | (.ok a, s') => (f a).run.run s'
      | (.error e, s') => (.error e, s') := by
  show ExceptT.bindCont f (x.run.run s).1 (x.run.run s).2 = _
  cases x.run.run s with
  | mk result s' => cases result <;> rfl

/-- A result of two computations in a row is one of the second. -/
theorem exists_of_run_bind {x : ExceptT ε (StateM σ) α}
    {f : α → ExceptT ε (StateM σ) β} {s s' : σ} {b : β}
    (h : (x >>= f).run.run s = (.ok b, s')) :
    ∃ a s₁, x.run.run s = (.ok a, s₁) ∧ (f a).run.run s₁ = (.ok b, s') := by
  rw [run_bind] at h
  split at h
  · next a s₁ hx => exact ⟨a, s₁, hx, h⟩
  · cases h

theorem run_get_bind (f : σ → ExceptT ε (StateM σ) β) (s : σ) :
    (get >>= f).run.run s = (f s).run.run s :=
  rfl

/-- What a computation does from a state: the state after it is related to the state before
by `R`; if it succeeds, `Q` holds of the result; and it succeeds if `ok` holds. -/
structure Yields (R : σ → σ → Prop) (s : σ) (x : ExceptT ε (StateM σ) α) (ok : Prop)
    (Q : α → σ → Prop) : Prop where
  evolves : R s (x.run.run s).2
  post : ∀ {a : α}, (x.run.run s).1 = .ok a → Q a (x.run.run s).2
  total : ok → ∃ a, (x.run.run s).1 = .ok a

namespace Yields

variable {R : σ → σ → Prop} {s : σ} {ok : Prop}

theorem pure {a : α} {Q : α → σ → Prop} (h : R s s) (hq : Q a s) :
    Yields R s (pure a : ExceptT ε (StateM σ) α) ok Q :=
  ⟨h, fun heq => by cases heq; exact hq, fun _ => ⟨a, rfl⟩⟩

theorem throw {e : ε} {Q : α → σ → Prop} (h : R s s) (hok : ¬ ok) :
    Yields R s (throw e : ExceptT ε (StateM σ) α) ok Q :=
  ⟨h, fun heq => (by cases heq), fun hyes => absurd hyes hok⟩

/-- A step that looks at the state comes first. -/
theorem of_get {f : σ → ExceptT ε (StateM σ) β} {Q : β → σ → Prop}
    (h : Yields R s (f s) ok Q) : Yields R s (get >>= f) ok Q :=
  ⟨h.evolves, h.post, h.total⟩

theorem modify {f : σ → σ} (h : R s (f s)) :
    Yields R s (modify f : ExceptT ε (StateM σ) PUnit) ok fun _ s' => s' = f s :=
  ⟨h, fun _ => rfl, fun _ => ⟨(), rfl⟩⟩

/-- A computation whose result is known. -/
theorem of_run {x : ExceptT ε (StateM σ) α} {a : α} {s' : σ} {Q : α → σ → Prop}
    (hrun : x.run.run s = (.ok a, s')) (h : R s s') (hq : Q a s') : Yields R s x ok Q := by
  refine ⟨by rw [hrun]; exact h, fun heq => ?_, fun _ => ⟨a, by rw [hrun]⟩⟩
  rw [hrun] at heq ⊢
  cases heq
  exact hq

theorem mono {x : ExceptT ε (StateM σ) α} {ok' : Prop} {Q Q' : α → σ → Prop}
    (hx : Yields R s x ok Q) (hok : ok' → ok) (h : ∀ a s', R s s' → Q a s' → Q' a s') :
    Yields R s x ok' Q' :=
  ⟨hx.evolves, fun heq => h _ _ hx.evolves (hx.post heq), fun hyes => hx.total (hok hyes)⟩

/-- The states are related more loosely. -/
theorem imp {R' : σ → σ → Prop} {x : ExceptT ε (StateM σ) α} {Q : α → σ → Prop}
    (hx : Yields R s x ok Q) (h : ∀ s', R s s' → R' s s') : Yields R' s x ok Q :=
  ⟨h _ hx.evolves, hx.post, hx.total⟩

/-- A computation that only renames the errors of another. -/
theorem of_mapError {ε' : Type} {x : ExceptT ε (StateM σ) α} {y : ExceptT ε' (StateM σ) α}
    {f : ε → ε'} {Q : α → σ → Prop}
    (hrun : y.run.run s = ((x.run.run s).1.mapError f, (x.run.run s).2))
    (hx : Yields R s x ok Q) : Yields R s y ok Q := by
  refine ⟨by rw [hrun]; exact hx.evolves, fun {a} heq => ?_, fun hyes => ?_⟩
  · rw [hrun] at heq ⊢
    cases hresult : (x.run.run s).1 with
    | error e =>
      rw [hresult] at heq
      cases heq
    | ok found =>
      rw [hresult] at heq
      cases heq
      exact hx.post hresult
  · obtain ⟨a, ha⟩ := hx.total hyes
    exact ⟨a, by rw [hrun, ha]; rfl⟩

variable [Trans R R R]

theorem bind {x : ExceptT ε (StateM σ) α} {f : α → ExceptT ε (StateM σ) β} {ok₁ ok₂ : Prop}
    {Q : α → σ → Prop} {Q' : β → σ → Prop} (hx : Yields R s x ok₁ Q) (hok : ok → ok₁ ∧ ok₂)
    (hf : ∀ a s', R s s' → Q a s' → Yields R s' (f a) ok₂ Q') :
    Yields R s (x >>= f) ok Q' := by
  have hrun := run_bind x f s
  cases h : x.run.run s with
  | mk result s' =>
    rw [h] at hrun
    have hev : R s s' := by simpa [h] using hx.evolves
    cases result with
    | error e =>
      refine ⟨by rw [hrun]; exact hev, fun heq => (by rw [hrun] at heq; cases heq), fun hyes => ?_⟩
      obtain ⟨a, ha⟩ := hx.total (hok hyes).1
      rw [h] at ha
      cases ha
    | ok a =>
      have hq : Q a s' := by simpa [h] using hx.post (a := a) (by rw [h])
      have hrest := hf a s' hev hq
      refine ⟨by rw [hrun]; exact Trans.trans hev hrest.evolves,
        fun heq => by rw [hrun] at heq ⊢; exact hrest.post heq, fun hyes => ?_⟩
      rw [hrun]
      exact hrest.total (hok hyes).2

/-- A step that cannot fail comes first. -/
theorem seq {x : ExceptT ε (StateM σ) α} {f : α → ExceptT ε (StateM σ) β} {Q : α → σ → Prop}
    {Q' : β → σ → Prop} (hx : Yields R s x True Q)
    (hf : ∀ a s', R s s' → Q a s' → Yields R s' (f a) ok Q') : Yields R s (x >>= f) ok Q' :=
  hx.bind (fun h => ⟨trivial, h⟩) hf

/-- A step that fails comes first. -/
theorem fails_bind {x : ExceptT ε (StateM σ) α} {f : α → ExceptT ε (StateM σ) β}
    {Q : β → σ → Prop} (hx : Yields R s x False fun _ _ => False) (hok : ¬ ok) :
    Yields R s (x >>= f) ok Q :=
  Yields.bind hx (fun h => (hok h).elim) fun _ _ _ h => (h.elim : Yields _ _ _ False _)

end Yields

/-! ## Why a computation fails -/

/-- If a computation fails in a state, the reason has a property. -/
def Fails (s : σ) (x : ExceptT ε (StateM σ) α) (P : ε → Prop) : Prop :=
  ∀ e, (x.run.run s).1 = .error e → P e

namespace Fails

variable {s : σ} {P : ε → Prop}

theorem pure {a : α} : Fails s (pure a : ExceptT ε (StateM σ) α) P :=
  fun _ h => by cases h

theorem throw {e : ε} (h : P e) : Fails s (throw e : ExceptT ε (StateM σ) α) P :=
  fun _ heq => by cases heq; exact h

theorem modify {f : σ → σ} : Fails s (modify f : ExceptT ε (StateM σ) PUnit) P :=
  fun _ h => by cases h

theorem of_get {f : σ → ExceptT ε (StateM σ) β} (h : Fails s (f s) P) : Fails s (get >>= f) P :=
  h

theorem bind {x : ExceptT ε (StateM σ) α} {f : α → ExceptT ε (StateM σ) β} (hx : Fails s x P)
    (hf : ∀ a s', x.run.run s = (.ok a, s') → Fails s' (f a) P) : Fails s (x >>= f) P := by
  intro e heq
  rw [run_bind] at heq
  cases h : x.run.run s with
  | mk result s' =>
    rw [h] at heq
    cases result with
    | error e' =>
      cases heq
      exact hx _ (by rw [h])
    | ok a => exact hf a s' h e heq

end Fails

/-! ## What a computation gives -/

/-- Whatever the state is, a result of a computation has a property. -/
def Delivers (x : ExceptT ε (StateM σ) α) (P : α → Prop) : Prop :=
  ∀ ⦃s : σ⦄ ⦃a : α⦄ ⦃s' : σ⦄, x.run.run s = (.ok a, s') → P a

namespace Delivers

variable {x : ExceptT ε (StateM σ) α} {f : α → ExceptT ε (StateM σ) β} {P : α → Prop}
  {Q : β → Prop}

theorem pure {a : α} (h : P a) : Delivers (pure a : ExceptT ε (StateM σ) α) P :=
  fun _ _ _ heq => by cases heq; exact h

theorem throw {e : ε} : Delivers (throw e : ExceptT ε (StateM σ) α) P :=
  fun _ _ _ heq => by cases heq

theorem trivial : Delivers x fun _ => True :=
  fun _ _ _ _ => True.intro

theorem mono {P' : α → Prop} (hx : Delivers x P) (h : ∀ a, P a → P' a) : Delivers x P' :=
  fun _ _ _ heq => h _ (hx heq)

theorem bind (hx : Delivers x P) (hf : ∀ a, P a → Delivers (f a) Q) : Delivers (x >>= f) Q := by
  intro s b s' heq
  rw [run_bind] at heq
  cases h : x.run.run s with
  | mk result s₁ =>
    rw [h] at heq
    cases result with
    | error e => cases heq
    | ok a => exact hf a (hx h) heq

/-- A computation whose result does not matter comes first. -/
theorem andThen (hf : ∀ a, Delivers (f a) Q) : Delivers (x >>= f) Q :=
  trivial.bind fun a _ => hf a

end Delivers

/-! ## What a computation keeps -/

/-- From states that satisfy `I` a computation ends in such states, whatever the outcome, and its
results have a property. -/
def Preserves (I : σ → Prop) (x : ExceptT ε (StateM σ) α) (P : α → Prop) : Prop :=
  ∀ ⦃s : σ⦄, I s → I (x.run.run s).2 ∧ ∀ ⦃a : α⦄, (x.run.run s).1 = .ok a → P a

namespace Preserves

variable {I : σ → Prop} {x : ExceptT ε (StateM σ) α} {f : α → ExceptT ε (StateM σ) β}
  {P : α → Prop} {Q : β → Prop}

theorem pure {a : α} (h : P a) : Preserves I (pure a : ExceptT ε (StateM σ) α) P :=
  fun _ hs => ⟨hs, fun _ heq => by cases heq; exact h⟩

theorem throw {e : ε} : Preserves I (throw e : ExceptT ε (StateM σ) α) P :=
  fun _ hs => ⟨hs, fun _ heq => by cases heq⟩

theorem mono {P' : α → Prop} (hx : Preserves I x P) (h : ∀ a, P a → P' a) : Preserves I x P' :=
  fun _ hs => ⟨(hx hs).1, fun _ heq => h _ ((hx hs).2 heq)⟩

theorem bind (hx : Preserves I x P) (hf : ∀ a, P a → Preserves I (f a) Q) :
    Preserves I (x >>= f) Q := by
  intro s hs
  rw [run_bind]
  obtain ⟨hkept, hresult⟩ := hx hs
  cases h : x.run.run s with
  | mk result s₁ =>
    rw [h] at hkept hresult
    cases result with
    | error e => exact ⟨hkept, fun _ heq => by cases heq⟩
    | ok a => exact hf a (hresult rfl) hkept

end Preserves
end AdaptiveScript
