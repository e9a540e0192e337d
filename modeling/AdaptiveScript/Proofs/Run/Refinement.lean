import AdaptiveScript.Proofs.Machine.Promise
import AdaptiveScript.Proofs.Plain
import AdaptiveScript.Proofs.Run.Trace

/-!
# What is said about runs

Three things are said about runs of specialized code, and all three by one induction over
the code, since each needs the others.

* A machine stays sound, nothing in it is lost (`Machine.Evolves`), and call sites change
  only by calls through them (`Machine.Trace`).  This holds of every run.
* Reads of locals give values of the types found for them, and no run ends in an error that
  specialized code raises when it meets a value that it did not count on.  This holds of
  runs that keep the promises of the program (`Machine.Fair`).
* The outcome is that of a plain run, and so is everything that programs can see afterwards
  (`Machine.Alike`).  This holds of such runs if all code is well formed.

`Refines` puts them together, for a run from one machine and a plain run from any world
that looks like it.  The rules `Refines.pure`, `Refines.bind` and so on follow the structure
of computations; the later modules use nothing else.
-/

namespace AdaptiveScript

/-! ## Machines and worlds -/

/-- Two tables are the same map; nothing is said about how they are laid out. -/
structure Table.Same (t u : Table) : Prop where
  get : ∀ key, u.get key = t.get key
  regular : u.Regular

/-- Two heaps have the same objects, tables being taken as maps. -/
structure Heap.Alike (heap plain : Heap) : Prop where
  cells : plain.cells = heap.cells
  functions : plain.functions = heap.functions
  tables_size : plain.tables.size = heap.tables.size
  tables : ∀ id : Nat, (heap.table id).Same (plain.table id)

theorem Heap.Alike.refl {heap : Heap} {shapes : Shapes} (hlaid : heap.Laid shapes) :
    heap.Alike heap :=
  ⟨rfl, rfl, rfl, fun id => ⟨fun _ => rfl, (hlaid id).regular⟩⟩

namespace Machine

/-- A world looks like a machine to programs. -/
structure Alike (m : Machine) (w : World) : Prop where
  program : w.program = m.program
  heap : m.heap.Alike w.heap
  realms : w.realms = m.realms

/-- What programs see of a machine. -/
def world (m : Machine) : World :=
  ⟨m.program, m.heap, m.realms⟩

theorem Alike.refl {m : Machine} (h : m.Sound) : m.Alike m.world :=
  ⟨rfl, .refl h.laid, rfl⟩

/-- Changes that programs do not notice. -/
theorem Prepares.alike_iff {m m' : Machine} (hprep : m.Prepares m') {w : World} :
    m'.Alike w ↔ m.Alike w := by
  constructor
  · rintro ⟨hprogram, hheap, hrealms⟩
    exact ⟨hprogram.trans hprep.evolves.program, by rwa [hprep.heap] at hheap,
      hrealms.trans hprep.realms⟩
  · rintro ⟨hprogram, hheap, hrealms⟩
    exact ⟨hprogram.trans hprep.evolves.program.symm, by rwa [hprep.heap],
      hrealms.trans hprep.realms.symm⟩

/-- All closures have the cells that they need, and all code is well formed. -/
structure Orderly (m : Machine) : Prop where
  bound : m.Bound
  wellFormed : m.program.WellFormed

theorem Orderly.of_evolves {m m' : Machine} (hev : m.Evolves m') (h : m.Orderly) : m'.Orderly :=
  ⟨hev.bound h.bound, by rw [hev.program]; exact h.wellFormed⟩

/-- Order was there before changes that programs do not notice. -/
theorem Orderly.of_prepares {m m' : Machine} (hprep : m.Prepares m') (h : m'.Orderly) :
    m.Orderly := by
  obtain ⟨hbound, hwellFormed⟩ := h
  refine ⟨fun ref c hc => ?_, by rwa [hprep.evolves.program] at hwellFormed⟩
  rw [← hprep.evolves.program]
  exact hbound ref c (by rw [hprep.heap]; exact hc)

/-- All reads of locals so far gave values of the types found for the locals. -/
def ReadsOk (m : Machine) : Prop :=
  ∀ (t : Moment) (type : Ty) (v : Value), m.reads t type v →
    type.admits t.shapes t.heap v = true

end Machine

/-! ## Outcomes -/

/-- Two runs end alike: with results that are related, or for the same reason. -/
inductive Matches {α β : Type} (A : α → β → Prop) : Except Stop α → Except Stop β → Prop
  | ok {a : α} {b : β} : A a b → Matches A (.ok a) (.ok b)
  | error (stop : Stop) : Matches A (.error stop) (.error stop)

theorem Matches.mono {α β : Type} {A A' : α → β → Prop} (hA : ∀ a b, A a b → A' a b)
    {result : Except Stop α} {outcome : Except Stop β} (h : Matches A result outcome) :
    Matches A' result outcome := by
  cases h with
  | ok hab => exact .ok (hA _ _ hab)
  | error stop => exact .error stop

/-- What is said about a run that starts in one machine and ends in another. -/
structure Ends {α β : Type} (pre : Prop) (m : Machine) (result : Except Stop α) (m' : Machine)
    (p : Plain β) (A : α → β → Prop) (Q : α → Machine → Prop) : Prop where
  evolves : m.Evolves m'
  trace : m.Trace m'
  post : ∀ {a : α}, result = .ok a → Q a m'
  reads : m'.Fair → m.ReadsOk → m'.ReadsOk
  violation : m'.Fair → ∀ {e : RuntimeError}, result = .error (.error e) → e.isViolation = false
  faithful : pre → m'.Fair → m.Orderly → ∀ {w w' : World} {outcome : Except Stop β},
    m.Alike w → p.run.run w = some (outcome, w') → Matches A result outcome ∧ m'.Alike w'

/-- What is said about a run from a machine.  The results of the run and of the plain run are
related by `A`, and the result has the property `Q`.  That the runs end alike is said under
the condition `pre`. -/
def Refines {α β : Type} (pre : Prop) (m : Machine) (x : Run α) (p : Plain β)
    (A : α → β → Prop) (Q : α → Machine → Prop) : Prop :=
  Ends pre m (x.run.run m).1 (x.run.run m).2 p A Q

namespace Plain

variable {α β : Type}

theorem run_bind (p : Plain α) (g : α → Plain β) (w : World) :
    (p >>= g).run.run w = match p.run.run w with
      | some (.ok a, w') => (g a).run.run w'
      | some (.error e, w') => some (.error e, w')
      | none => none := by
  show (p.run.run w).bind (fun r => ExceptT.bindCont g r.1 r.2) = _
  cases p.run.run w with
  | none => rfl
  | some r =>
    obtain ⟨result, w'⟩ := r
    cases result <;> rfl

theorem run_heap_bind (g : Heap → Plain β) (w : World) :
    (heap >>= g).run.run w = (g w.heap).run.run w :=
  rfl

end Plain

namespace Ends

variable {α β : Type} {pre : Prop} {m : Machine} {p : Plain β} {A : α → β → Prop}
  {Q : α → Machine → Prop}

/-- Changes that programs do not notice come first. -/
theorem of_prepares {m₁ m' : Machine} {result : Except Stop α} (hprep : m.Prepares m₁)
    (htrace : m.Trace m₁) (h : Ends pre m₁ result m' p A Q) : Ends pre m result m' p A Q where
  evolves := hprep.evolves.trans h.evolves
  trace := htrace.trans h.trace
  post := h.post
  reads hfair hreads := h.reads hfair (by unfold Machine.ReadsOk; rw [hprep.reads]; exact hreads)
  violation := h.violation
  faithful hpre hfair horderly _ _ _ halike hrun :=
    h.faithful hpre hfair (horderly.of_evolves hprep.evolves) (hprep.alike_iff.2 halike) hrun

/-- A step that does nothing but change the shared objects or the global variables. -/
theorem step {a : α} {m' : Machine} (hev : m.Evolves m') (hquiet : m.Quiet m')
    (hreads : m'.reads = m.reads) (hq : Q a m')
    (hplain : m.Orderly → ∀ {w : World}, m.Alike w →
      ∃ b w', p.run.run w = some (.ok b, w') ∧ A a b ∧ m'.Alike w') :
    Ends pre m (.ok a) m' p A Q where
  evolves := hev
  trace := .of_quiet hev hquiet
  post heq := by
    cases heq
    exact hq
  reads _ hok := by
    unfold Machine.ReadsOk
    rw [hreads]
    exact hok
  violation _ _ heq := by cases heq
  faithful _ _ horderly w w' outcome halike hrun := by
    obtain ⟨b, w₁, hrun₁, hab, halike₁⟩ := hplain horderly halike
    rw [hrun₁] at hrun
    cases hrun
    exact ⟨.ok hab, halike₁⟩

end Ends

namespace Refines

variable {α β γ δ : Type} {pre : Prop} {m : Machine}

theorem pure {a : α} {b : β} {A : α → β → Prop} {Q : α → Machine → Prop} (h : m.Sound)
    (hab : A a b) (hq : Q a m) : Refines pre m (pure a) (pure b) A Q :=
  Ends.step (.refl h) (.refl m) rfl hq fun _ _ halike => ⟨b, _, rfl, hab, halike⟩

/-- A run that stops, as the plain run does. -/
theorem stops {stop : Stop} {p : Plain β} {A : α → β → Prop} {Q : α → Machine → Prop} (h : m.Sound)
    (hstop : ∀ e, stop = .error e → e.isViolation = false)
    (hplain : pre → m.Fair → m.Orderly → ∀ {w w' : World} {outcome : Except Stop β}, m.Alike w →
      p.run.run w = some (outcome, w') → outcome = .error stop ∧ w' = w) :
    Refines pre m (MonadExcept.throw stop : Run α) p A Q where
  evolves := .refl h
  trace := .refl m
  post heq := by cases heq
  reads _ hok := hok
  violation _ e heq := hstop e (by cases heq; rfl)
  faithful hpre hfair horderly _ _ _ halike hrun := by
    obtain ⟨rfl, rfl⟩ := hplain hpre hfair horderly halike hrun
    exact ⟨.error stop, halike⟩

/-- Both runs stop for the same reason. -/
theorem throw {stop : Stop} {A : α → β → Prop} {Q : α → Machine → Prop} (h : m.Sound)
    (hstop : ∀ e, stop = .error e → e.isViolation = false) :
    Refines pre m (throw stop : Run α) (throw stop : Plain β) A Q :=
  stops h hstop fun _ _ _ _ _ _ _ hrun => by
    cases hrun
    exact ⟨rfl, rfl⟩

theorem raise {e : RuntimeError} {A : α → β → Prop} {Q : α → Machine → Prop} (h : m.Sound)
    (he : e.isViolation = false) : Refines pre m (Run.raise e) (Plain.raise e) A Q :=
  throw h fun e' heq => by
    cases heq
    exact he

theorem ofExcept {x : Except RuntimeError α} {Q : α → Machine → Prop} (h : m.Sound)
    (hviolation : ∀ e, x = .error e → e.isViolation = false) (hq : ∀ a, x = .ok a → Q a m) :
    Refines pre m (Run.ofExcept x) (Plain.ofExcept x) (fun a b => b = a) Q := by
  cases x with
  | ok a => exact pure h rfl (hq a rfl)
  | error e => exact raise h (hviolation e rfl)

theorem mono {x : Run α} {p : Plain β} {pre' : Prop} {A A' : α → β → Prop}
    {Q Q' : α → Machine → Prop} (hx : Refines pre m x p A Q) (hpre : pre' → m.Fair → pre)
    (hA : ∀ a b, A a b → A' a b) (hQ : ∀ a m', m.Evolves m' → Q a m' → Q' a m') :
    Refines pre' m x p A' Q' where
  evolves := hx.evolves
  trace := hx.trace
  post heq := hQ _ _ hx.evolves (hx.post heq)
  reads := hx.reads
  violation := hx.violation
  faithful hyes hfair horderly _ _ _ halike hrun := by
    obtain ⟨hmatches, halike'⟩ :=
      hx.faithful (hpre hyes (hfair.of_evolves hx.evolves)) hfair horderly halike hrun
    exact ⟨hmatches.mono hA, halike'⟩

/-- The result of the plain run is a function of the result of the run, and both go on. -/
theorem bind {x : Run α} {p : Plain β} {f : α → Run γ} {g : β → Plain δ} {φ : α → β}
    {Q : α → Machine → Prop} {A : γ → δ → Prop} {Q' : γ → Machine → Prop}
    (hx : Refines pre m x p (fun a b => b = φ a) Q)
    (hf : ∀ a m₁, m.Evolves m₁ → Q a m₁ → Refines pre m₁ (f a) (g (φ a)) A Q') :
    Refines pre m (x >>= f) (p >>= g) A Q' := by
  have hrun := run_bind x f m
  cases h : x.run.run m with
  | mk result m₁ =>
    have hends : Ends pre m result m₁ p (fun a b => b = φ a) Q := by
      have hends := hx
      unfold Refines at hends
      rwa [h] at hends
    rw [h] at hrun
    unfold Refines
    cases result with
    | error stop =>
      rw [hrun]
      refine ⟨hends.evolves, hends.trace, fun heq => (by cases heq), hends.reads, ?_, ?_⟩
      · intro hfair e heq
        cases heq
        exact hends.violation hfair rfl
      · intro hpre hfair horderly w w' outcome halike hplain
        rw [Plain.run_bind] at hplain
        cases hp : p.run.run w with
        | none =>
          rw [hp] at hplain
          cases hplain
        | some r =>
          obtain ⟨outcome₁, w₁⟩ := r
          obtain ⟨hmatches, halike₁⟩ := hends.faithful hpre hfair horderly halike hp
          cases hmatches
          rw [hp] at hplain
          cases hplain
          exact ⟨.error stop, halike₁⟩
    | ok a =>
      have hrest : Ends pre m₁ ((f a).run.run m₁).1 ((f a).run.run m₁).2 (g (φ a)) A Q' :=
        hf a m₁ hends.evolves (hends.post rfl)
      rw [hrun]
      refine ⟨hends.evolves.trans hrest.evolves, hends.trace.trans hrest.trace, hrest.post, ?_,
        hrest.violation, ?_⟩
      · intro hfair hok
        exact hrest.reads hfair (hends.reads (hfair.of_evolves hrest.evolves) hok)
      · intro hpre hfair horderly w w' outcome halike hplain
        rw [Plain.run_bind] at hplain
        cases hp : p.run.run w with
        | none =>
          rw [hp] at hplain
          cases hplain
        | some r =>
          obtain ⟨outcome₁, w₁⟩ := r
          obtain ⟨hmatches, halike₁⟩ :=
            hends.faithful hpre (hfair.of_evolves hrest.evolves) horderly halike hp
          cases hmatches with
          | ok hb =>
            subst hb
            rw [hp] at hplain
            exact hrest.faithful hpre hfair (horderly.of_evolves hends.evolves) halike₁ hplain

/-- Functions of the results are passed on. -/
theorem map {x : Run α} {p : Plain β} {A : α → β → Prop} {Q : α → Machine → Prop}
    {f : α → γ} {g : β → δ} {A' : γ → δ → Prop} {Q' : γ → Machine → Prop}
    (hx : Refines pre m x p A Q) (hA : ∀ a b, A a b → A' (f a) (g b))
    (hQ : ∀ a m', m.Evolves m' → Q a m' → Q' (f a) m') :
    Refines pre m (x >>= fun a => Pure.pure (f a)) (p >>= fun b => Pure.pure (g b)) A' Q' := by
  have hrun := run_bind x (fun a => (Pure.pure (f a) : Run γ)) m
  cases h : x.run.run m with
  | mk result m₁ =>
    have hends : Ends pre m result m₁ p A Q := by
      have hends := hx
      unfold Refines at hends
      rwa [h] at hends
    have hresult : (x >>= fun a => (Pure.pure (f a) : Run γ)).run.run m = (result.map f, m₁) := by
      rw [hrun, h]
      cases result <;> rfl
    unfold Refines
    rw [hresult]
    refine ⟨hends.evolves, hends.trace, fun heq => ?_, hends.reads, fun hfair e heq => ?_, ?_⟩
    · cases result with
      | error stop => cases heq
      | ok a =>
        cases heq
        exact hQ a m₁ hends.evolves (hends.post rfl)
    · cases result with
      | error stop =>
        cases heq
        exact hends.violation hfair rfl
      | ok a => cases heq
    · intro hpre hfair horderly w w' outcome halike hplain
      rw [Plain.run_bind] at hplain
      cases hp : p.run.run w with
      | none =>
        rw [hp] at hplain
        cases hplain
      | some r =>
        obtain ⟨outcome₁, w₁⟩ := r
        obtain ⟨hmatches, halike₁⟩ := hends.faithful hpre hfair horderly halike hp
        cases hmatches with
        | error stop =>
          rw [hp] at hplain
          cases hplain
          exact ⟨.error stop, halike₁⟩
        | ok hab =>
          rw [hp] at hplain
          cases hplain
          exact ⟨.ok (hA _ _ hab), halike₁⟩

/-- Looking at the shared objects.  The plain run sees objects that are alike. -/
theorem heap {f : Heap → Run α} {g : Heap → Plain β} {A : α → β → Prop} {Q : α → Machine → Prop}
    (h : m.Sound)
    (hf : ∀ plain : Heap, m.heap.Alike plain → Refines pre m (f m.heap) (g plain) A Q) :
    Refines pre m (Run.heap >>= f) (Plain.heap >>= g) A Q := by
  have hself := hf m.heap (.refl h.laid)
  refine ⟨hself.evolves, hself.trace, hself.post, hself.reads, hself.violation, ?_⟩
  intro hpre hfair horderly w w' outcome halike hrun
  exact (hf w.heap halike.heap).faithful hpre hfair horderly halike hrun

/-- Changing the shared objects. -/
theorem setHeap {heap plain : Heap} (hev : m.Evolves (m.setHeap heap))
    (halike : heap.Alike plain) : Refines pre m (Run.setHeap heap) (Plain.setHeap plain)
      (fun a b => b = a) fun _ m' => m' = m.setHeap heap :=
  Ends.step hev (.of_same rfl rfl) rfl rfl fun _ _ hw => ⟨_, _, rfl, rfl, hw.program, halike, hw.realms⟩

/-- What matters of a run is its outcome. -/
theorem congr {x y : Run α} {p : Plain β} {A : α → β → Prop} {Q : α → Machine → Prop}
    (heq : x.run.run m = y.run.run m) (hy : Refines pre m y p A Q) : Refines pre m x p A Q := by
  unfold Refines at hy ⊢
  rw [heq]
  exact hy

/-- Looking at the machine. -/
theorem get {f : Machine → Run α} {p : Plain β} {A : α → β → Prop} {Q : α → Machine → Prop}
    (hf : Refines pre m (f m) p A Q) : Refines pre m (MonadState.get >>= f) p A Q :=
  congr (run_get_bind f m) hf

/-- The plain run looks at the world, which looks like the machine. -/
theorem world {x : Run α} {g : World → Plain β} {A : α → β → Prop} {Q : α → Machine → Prop}
    (h : m.Sound) (hx : ∀ w : World, m.Alike w → Refines pre m x (g w) A Q) :
    Refines pre m x (MonadState.get >>= g) A Q := by
  have hself := hx m.world (.refl h)
  refine ⟨hself.evolves, hself.trace, hself.post, hself.reads, hself.violation, ?_⟩
  intro hpre hfair horderly w w' outcome halike hrun
  exact (hx w halike).faithful hpre hfair horderly halike hrun

theorem plainHeap {x : Run α} {g : Heap → Plain β} {A : α → β → Prop} {Q : α → Machine → Prop}
    (h : m.Sound)
    (hx : ∀ plain : Heap, m.heap.Alike plain → Refines pre m x (g plain) A Q) :
    Refines pre m x (Plain.heap >>= g) A Q := by
  rw [Plain.heap, bind_assoc]
  simp only [pure_bind]
  exact world h fun w halike => hx w.heap halike.heap

/-- An error that does not occur if promises are kept and all code is well formed. -/
theorem never {e : RuntimeError} {p : Plain β} {A : α → β → Prop} {Q : α → Machine → Prop}
    (h : m.Sound) (he : e.isViolation = false) (hnever : pre → m.Fair → m.Orderly → False) :
    Refines pre m (Run.raise e : Run α) p A Q :=
  stops h (fun e' heq => by cases heq; exact he)
    fun hpre hfair horderly => (hnever hpre hfair horderly).elim

/-- The host is called: nothing is said about the outcome. -/
theorem toUnknown {x : Run α} {p : Plain β} {A : α → β → Prop} {A' : α → δ → Prop}
    {Q Q' : α → Machine → Prop} (hx : Refines True m x p A Q)
    (hQ : ∀ a m', m.Evolves m' → Q a m' → Q' a m') :
    Refines pre m x (Plain.unknown : Plain δ) A' Q' where
  evolves := hx.evolves
  trace := hx.trace
  post heq := hQ _ _ hx.evolves (hx.post heq)
  reads := hx.reads
  violation := hx.violation
  faithful _ _ _ _ _ _ _ hrun := by cases hrun

/-- The host goes on with what it got. -/
theorem bindUnknown {x : Run α} {f : α → Run γ} {p : Plain β} {A : α → β → Prop}
    {Q : α → Machine → Prop} {A' : γ → δ → Prop} {Q' : γ → Machine → Prop}
    (hx : Refines True m x p A Q)
    (hf : ∀ a m₁, m.Evolves m₁ → Q a m₁ →
      Refines pre m₁ (f a) (Plain.unknown : Plain δ) A' Q') :
    Refines pre m (x >>= f) (Plain.unknown : Plain δ) A' Q' := by
  have hx' : Refines pre m x (Plain.unknown : Plain Unit) (fun _ b => b = ()) Q :=
    hx.toUnknown fun _ _ _ hq => hq
  exact bind (φ := fun _ => ()) (g := fun _ => Plain.unknown) hx' hf

/-- The host looks at how a call ends. -/
theorem outcome {x : Run α} {p : Plain β} {A : α → β → Prop} {Q : α → Machine → Prop}
    (hx : Refines True m x p A Q) :
    Refines True m (Run.outcome x) (Plain.unknown : Plain Unit) (fun _ _ => True) fun r m' =>
      match r with
      | .ok a => Q a m'
      | .error e => m'.Fair → e.isViolation = false := by
  unfold Refines
  rw [Run.run_outcome]
  refine ⟨hx.evolves, hx.trace, fun heq => ?_, hx.reads, fun hfair e heq => ?_, ?_⟩
  · cases hresult : (x.run.run m).1 with
    | ok a =>
      rw [hresult] at heq
      cases heq
      exact hx.post hresult
    | error stop =>
      rw [hresult] at heq
      cases stop with
      | error e =>
        cases heq
        exact fun hfair => hx.violation hfair hresult
      | exhausted => cases heq
  · cases hresult : (x.run.run m).1 with
    | ok a =>
      rw [hresult] at heq
      cases heq
    | error stop =>
      rw [hresult] at heq
      cases stop <;> cases heq
  · intro _ _ _ _ _ _ _ hrun
    cases hrun

/-- The host passes an error on. -/
theorem raiseUnknown {e : RuntimeError} {A : α → β → Prop} {Q : α → Machine → Prop} (h : m.Sound)
    (he : m.Fair → e.isViolation = false) :
    Refines pre m (Run.raise e : Run α) (Plain.unknown : Plain β) A Q where
  evolves := .refl h
  trace := .refl m
  post heq := by cases heq
  reads _ hok := hok
  violation hfair _ heq := by
    cases heq
    exact he hfair
  faithful _ _ _ _ _ _ _ hrun := by cases hrun

/-- A compilation comes first; programs do not notice it. -/
theorem prepare {x : Run α} {f : α → Run γ} {p : Plain δ} {ok : Prop} {Q : α → Machine → Prop}
    {A : γ → δ → Prop} {Q' : γ → Machine → Prop} (hx : Yields Machine.Compiles m x ok Q)
    (hviolation : ∀ e, (x.run.run m).1 = .error (.error e) → e.isViolation = false)
    (hok : pre → m.Fair → m.Orderly → ok)
    (hf : ∀ a m₁, m.Compiles m₁ → Q a m₁ → Refines pre m₁ (f a) p A Q') :
    Refines pre m (x >>= f) p A Q' := by
  have hrun := run_bind x f m
  cases h : x.run.run m with
  | mk result m₁ =>
    have hcompiles : m.Compiles m₁ := by simpa [h] using hx.evolves
    have hprep := hcompiles.prepares
    have htrace : m.Trace m₁ := .of_quiet hprep.evolves hcompiles.quiet
    rw [h] at hrun
    unfold Refines
    cases result with
    | error stop =>
      rw [hrun]
      refine ⟨hprep.evolves, htrace, fun heq => (by cases heq), fun _ hreads => ?_,
        fun _ e heq => ?_, ?_⟩
      · unfold Machine.ReadsOk
        rw [hprep.reads]
        exact hreads
      · cases heq
        exact hviolation e (by rw [h])
      · intro hpre hfair horderly
        obtain ⟨a, ha⟩ := hx.total (hok hpre (hfair.of_evolves hprep.evolves) horderly)
        rw [h] at ha
        cases ha
    | ok a =>
      have hq : Q a m₁ := by simpa [h] using hx.post (a := a) (by rw [h])
      rw [hrun]
      exact Ends.of_prepares hprep htrace (hf a m₁ hcompiles hq)

end Refines
end AdaptiveScript
