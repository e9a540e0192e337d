import AdaptiveScript.Proofs.Run.Moves

/-!
# Calls, as far as counting goes

Every request is answered by a sequence of moves (`moves_answer`): requests for specializations,
entries into the linker, and what changes no counter.  The moves of calls within calls stand in
this sequence in the order in which they happen, so it is all that the counters depend on.

A call through a site enters the linker after one of three things was found: that the site has no
link, that its guard holds the callee back, or that its target turns the arguments down.  Only the
last runs something first, namely a check, and that leaves the machine as it is
(`Linking.begin_of_rejected`).
-/

namespace AdaptiveScript

/-! ## Routines and functions -/

/-- The engine and the site that a request names exist. -/
def Request.Placed (m : Machine) : Request → Prop
  | .engine home _ _ => home < m.engines.size
  | .direct _ _ => True
  | .site home id _ _ => home < m.engines.size ∧ 0 < id ∧ id ≤ m.sites.sites.size

/-- Requests are answered by moves. -/
def Responder.Moves (again : Responder) : Prop :=
  ∀ (m : Machine) (request : Request), m.Housed → request.Placed m →
    m.Moves ((again request).run.run m).2

/-- A computation that only renames its result. -/
theorem state_map {α β : Type} (x : Run α) (f : α → β) (m : Machine) :
    ((do return f (← x) : Run β).run.run m).2 = (x.run.run m).2 := by
  rw [run_bind]
  cases x.run.run m with
  | mk result m' => cases result <;> rfl

/-- A rejection changes nothing any more. -/
theorem state_results (x : Run Attempt) (m : Machine) :
    ((x >>= Attempt.results).run.run m).2 = (x.run.run m).2 := by
  rw [run_bind]
  cases x.run.run m with
  | mk result m' =>
    cases result with
    | error stop => rfl
    | ok attempt => cases attempt <;> rfl

namespace Linking

variable {again : Responder} {rounds : Nat} {engine : EngineId} {m m' : Machine}
  {args : List Value} {reason : RuntimeError}

theorem run_finished_ne (x : Run (List Value)) :
    (do return Attempt.finished (← x) : Run Attempt).run.run m ≠ (.ok (.rejected reason), m') := by
  intro hrun
  rw [run_bind] at hrun
  cases hx : x.run.run m with
  | mk outcome m₁ =>
    rw [hx] at hrun
    cases outcome <;> cases hrun

theorem error_of_rejected {result : Except RuntimeError Start}
    (hrun : (attempt again rounds engine args result).run.run m = (.ok (.rejected reason), m')) :
    m' = m ∧ result = .error reason := by
  cases result with
  | error e =>
    cases hrun
    exact ⟨rfl, rfl⟩
  | ok start => exact absurd hrun (run_finished_ne _)

/-- A target that turns a call down made its check, and nothing has run. -/
theorem begin_of_rejected {callee : Value} {target : Target}
    (hrun : (target.run again rounds engine callee args).run.run m = (.ok (.rejected reason), m')) :
    m' = m ∧ target.begin m callee args = .error reason := by
  cases target with
  | «instance» spec cells =>
    rw [Target.run, run_enter] at hrun
    exact error_of_rejected hrun
  | «prototype» spec =>
    rw [Target.run, run_heap_bind] at hrun
    rw [Target.begin]
    cases hclosure : m.heap.closure? callee with
    | none =>
      rw [hclosure] at hrun
      cases hrun
      exact ⟨rfl, rfl⟩
    | some closure =>
      rw [hclosure] at hrun
      dsimp only at hrun
      rw [run_enter] at hrun
      exact error_of_rejected hrun
  | host ref index =>
    rw [Target.run, run_get_bind] at hrun
    rw [Target.begin]
    cases hoverloads : m.heap.overloads? ref with
    | none =>
      rw [hoverloads] at hrun
      cases hrun
    | some overloads =>
      rw [hoverloads] at hrun
      dsimp only at hrun ⊢
      split at hrun
      · exact absurd hrun (run_finished_ne _)
      · next hmatches =>
        rw [if_neg hmatches]
        cases hrun
        exact ⟨rfl, rfl⟩
  | foreign ref => exact absurd hrun (run_finished_ne _)

end Linking

section Calls

variable {again : Responder} (hagain : again.Moves) {m : Machine} (rounds : Nat)
include hagain

theorem moves_run {engine : EngineId} {spec : Specialization}
    (h : m.Ready engine (Step.allSites spec.body)) (cells : List CellId) (args : List Value) :
    m.Moves ((spec.run again rounds engine cells args).run.run m).2 := by
  have hcaller : Caller.Moves (fun engine site callee args => again (.site engine site callee args))
      engine (Step.allSites spec.body) := by
    intro id hid callee args m hm
    exact .of_moves (hagain m _ hm.housed ⟨hm.engine, hm.sites id hid⟩)
  have hcalm : m.Calm (m.setHeap (spec.frame engine cells args m.heap).2) :=
    .setHeap (Frame.cellsOnly_openLocals (spec.initialLocals args) m.heap).functions
  have hbody := (passes_execBlock hcaller rounds spec.body (List.Subset.refl _)
    (spec.frame engine cells args m.heap).1 rfl).bind
      fun out _ => Does.pure (a := spec.visibleResults out.1.results) (Q := fun _ => True) trivial
  have hopen : m.Moves _ := .of_calm hcalm
  exact hopen.trans (hbody _ (h.mono hopen)).evolves

theorem moves_enter {engine : EngineId} {spec : Specialization}
    (h : m.Ready engine (Step.allSites spec.body)) (cells : List CellId) (args : List Value) :
    m.Moves ((spec.enter again rounds engine cells args).run.run m).2 := by
  unfold Specialization.enter
  rw [run_get_bind]
  split
  · exact .refl
  · rw [state_map]
    exact moves_run hagain rounds h cells args

theorem moves_callValue (h : m.Housed) (callee : Value) (args : List Value) :
    m.Moves ((callValue again callee args).run.run m).2 := by
  unfold callValue
  split
  · exact hagain m _ h trivial
  · exact .refl

omit hagain in
theorem performs_readKey (target key : Value) :
    m.Performs (Run.readKey target key) fun _ _ => True := by
  refine .of_get ?_
  cases indexValue m.heap target key with
  | error e => exact .throw .refl not_false
  | ok v => exact .pure .refl trivial

omit hagain in
theorem performs_writeKey (target key v : Value) :
    m.Performs (Run.writeKey target key v) fun _ _ => True := by
  refine .of_get ?_
  cases hstore : storeIndex m.heap target key v with
  | error e => exact .throw .refl not_false
  | ok heap =>
    obtain ⟨ref, t, rfl⟩ := exists_of_storeIndex hstore
    exact Machine.Performs.of_moves (.of_calm (.setHeap rfl))

/-- Code of the host makes moves, one thing that it asks for after the other. -/
theorem performs_perform (code : HostCode) (h : m.Housed) :
    m.Performs (perform again code) fun _ _ => True := by
  -- what is asked for leaves everything in its place
  have hstep {α : Type} {x : Run α} {next : α → Run (List Value)} {m : Machine} (h : m.Housed)
      (hx : m.Performs x fun _ _ => True)
      (hnext : ∀ a {m₁ : Machine}, m₁.Housed → m₁.Performs (next a) fun _ _ => True) :
      m.Performs (x >>= next) fun _ _ => True :=
    hx.bind False.elim fun a _ hmoves _ => hnext a (hmoves.keeps h).1
  induction code generalizing m with
  | done results => exact .pure .refl trivial
  | raise fault => exact .throw .refl not_false
  | call callee args next handles handler ihnext ihhandler =>
    rw [perform]
    refine hstep h (.of_moves (moves_callValue hagain h callee args)) fun outcome m₁ hm₁ => ?_
    cases outcome with
    | ok results => exact ihnext results hm₁
    | error e =>
      dsimp only
      split
      · exact ihhandler e hm₁
      · exact .throw .refl not_false
  | makeTable next ih =>
    exact hstep h (.of_moves (.of_calm (.setHeap rfl))) fun v _ hm₁ => ih v hm₁
  | read target key next ih =>
    exact hstep h (performs_readKey target key) fun v _ hm₁ => ih v hm₁
  | write target key v next ih =>
    exact hstep h (performs_writeKey target key v) fun _ _ hm₁ => ih hm₁
  | global engine name next ih => exact .of_get (ih _ h)
  | setGlobal engine name v next ih =>
    exact hstep h (.of_moves (.of_calm (.modifyEngine engine fun _ => rfl)))
      fun _ _ hm₁ => ih hm₁

theorem moves_runOverload (h : m.Housed) (ref : FunctionRef) (overloads : List Overload)
    (index : Nat) (args : List Value) :
    m.Moves ((runOverload again ref overloads index args).run.run m).2 := by
  unfold runOverload
  split
  · exact (performs_perform hagain _ h).evolves
  · exact .refl

theorem moves_runHost (h : m.Housed) (ref : FunctionRef) (overloads : List Overload)
    (args : List Value) : m.Moves ((runHost again ref overloads args).run.run m).2 := by
  unfold runHost
  rw [run_get_bind]
  split
  · exact moves_runOverload hagain h ref overloads _ args
  · exact .refl

theorem moves_runClosure {engine : EngineId} (hengine : engine < m.engines.size) (h : m.Housed)
    (closure : Closure) (args : List Value) :
    m.Moves ((runClosure again rounds engine closure args).run.run m).2 := by
  unfold runClosure
  rw [run_get_bind]
  dsimp only
  rw [run_bind]
  obtain ⟨result, m₁, hrun, hobtains⟩ := Linking.obtains_specialize h engine closure.proto
    (args.map (m.typeOf engine)) (((m.program.prototype? closure.proto).map fun proto =>
      Linking.identityUpvalueTypes (m.engine engine).registry m.heap proto closure.cells).getD [])
    false
  rw [hrun]
  have hask := hobtains.moves hengine
  obtain ⟨hhoused, hengines, -⟩ := hask.keeps h
  cases hobtains with
  | error => exact hask
  | @code spec _ _ hsites =>
    have hready : m₁.Ready engine (Step.allSites spec.body) :=
      ⟨hhoused, Nat.lt_of_lt_of_le hengine hengines, hsites⟩
    refine hask.trans ?_
    dsimp only
    rw [state_results]
    exact moves_enter hagain rounds hready closure.cells args

/-- Calling a function generically; a closure belongs to an engine that exists. -/
theorem moves_runDirect (h : m.Housed) (ref : FunctionRef) (args : List Value) :
    m.Moves ((runDirect again rounds ref args).run.run m).2 := by
  unfold runDirect
  rw [run_get_bind]
  cases hfunction : m.heap.function? ref with
  | none => exact .refl
  | some f =>
    cases f with
    | closure closure =>
      dsimp only
      split
      · exact moves_runClosure hagain rounds (h.closures hfunction) h closure args
      · exact .refl
    | host overloads => exact moves_runHost hagain h ref overloads args
    | foreign action => exact (performs_perform hagain (action args) h).evolves

theorem moves_runEngine {engine : EngineId} (hengine : engine < m.engines.size) (h : m.Housed)
    (callee : Value) (args : List Value) :
    m.Moves ((runEngine again rounds engine callee args).run.run m).2 := by
  cases callee with
  | function ref =>
    unfold runEngine
    rw [run_heap_bind]
    split
    · exact moves_runClosure hagain rounds hengine h _ args
    · exact moves_runDirect hagain rounds h ref args
  | _ => exact .refl

/-! ## Calls through sites -/

/-- A target runs code through sites that exist. -/
theorem moves_target {engine : EngineId} (hengine : engine < m.engines.size) (h : m.Housed)
    {target : Linking.Target} (hspecs : ∀ spec, target.specialization? = some spec →
      m.sites.HasAll (Step.allSites spec.body)) (callee : Value) (args : List Value) :
    m.Moves ((target.run again rounds engine callee args).run.run m).2 := by
  cases target with
  | «instance» spec cells =>
    exact moves_enter hagain rounds ⟨h, hengine, hspecs spec rfl⟩ cells args
  | «prototype» spec =>
    rw [Linking.Target.run, run_heap_bind]
    split
    · exact moves_enter hagain rounds ⟨h, hengine, hspecs spec rfl⟩ _ args
    · exact .refl
  | host ref index =>
    rw [Linking.Target.run, run_get_bind]
    split
    · exact .refl
    · split
      · rw [state_map]
        exact moves_runOverload hagain h ref _ index args
      · exact .refl
  | foreign ref =>
    rw [Linking.Target.run, state_map]
    exact moves_runDirect hagain rounds h ref args

section Sites

variable {engine : EngineId} (hengine : engine < m.engines.size) {id : SiteId}
  (hid : 0 < id ∧ id ≤ m.sites.sites.size) (h : m.Housed) {callee : Value} {args : List Value}
include hengine hid h

/-- A call that enters the linker. -/
theorem moves_relink {m₀ : Machine} (hrelinks : Linking.Relinks m engine id callee args m₀) :
    m.Moves ((Linking.relink again rounds (.of m) engine id callee args).run.run m₀).2 := by
  have hm₀ := hrelinks.housed h
  unfold Linking.relink
  rw [run_bind]
  cases hrun : (Linking.enter (.of m) engine id callee args).run.run m₀ with
  | mk result m' =>
    have hentry : m.Moves m' := .single (.entry hengine hid hrelinks hrun)
    obtain ⟨m₁, hlinks, hstate, -, -⟩ := Linking.Links.of_enter hm₀ hrun
    obtain ⟨hhoused, hengines, -⟩ := hentry.keeps h
    cases result with
    | error stop => exact hentry
    | ok outcome =>
      dsimp only
      rw [state_results]
      refine hentry.trans (moves_target hagain rounds (Nat.lt_of_lt_of_le hengine hengines) hhoused
        (fun spec hspec => ?_) callee args)
      rw [hstate]
      exact hlinks.hasAll hspec

theorem moves_proceed :
    m.Moves ((Linking.proceed again rounds engine id callee args).run.run m).2 := by
  unfold Linking.proceed
  rw [run_get_bind]
  cases hlink : (m.sites.get id).link with
  | none => exact moves_relink hagain rounds hengine hid h (.unlinked hlink)
  | some link =>
    dsimp only
    cases hguard : link.guard.holds m.heap callee with
    | false => exact moves_relink hagain rounds hengine hid h (.guardFailed hlink hguard)
    | true =>
      have htarget := moves_target hagain rounds hengine h (h.links hlink) callee args
      rw [if_pos rfl, run_bind]
      cases hrun : (link.target.run again rounds engine callee args).run.run m with
      | mk result m' =>
        rw [hrun] at htarget
        cases result with
        | error stop => exact htarget
        | ok attempt =>
          cases attempt with
          | finished results => exact htarget
          | rejected reason =>
            obtain ⟨rfl, hbegin⟩ := Linking.begin_of_rejected hrun
            exact moves_relink hagain rounds hengine hid h (.rejected hlink hguard hbegin)

end Sites

/-- **The step.** A request is answered by moves, if those that arise on the way are. -/
theorem moves_respond : Responder.Moves (respond again rounds) := by
  intro m request h hplaced
  cases request with
  | engine engine callee args => exact moves_runEngine hagain rounds hplaced h callee args
  | direct ref args => exact moves_runDirect hagain rounds h ref args
  | site engine id callee args =>
    have hcalm : m.Calm (m.recordCall engine id callee args) := .recordCall engine id callee args
    have hrecord : m.Moves _ := .of_calm hcalm
    exact hrecord.trans (moves_proceed (m := m.recordCall engine id callee args) hagain rounds
      hplaced.1 hplaced.2 (hcalm.housed h))

end Calls

/-- **The run.** Every request is answered by moves, whatever the depth of calls. -/
theorem moves_answer (depth : Nat) : Responder.Moves (answer depth) := by
  induction depth with
  | zero => exact fun _ _ _ _ => .refl
  | succ depth ih => exact moves_respond ih depth

end AdaptiveScript
