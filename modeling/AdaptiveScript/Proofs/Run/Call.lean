import AdaptiveScript.Proofs.Linking.Failure
import AdaptiveScript.Proofs.Run.Routine

/-!
# Calls

Every call does what a plain call does (`answered_answer`): through an engine, through the
function itself, and through a site.  Calls are answered with a bound on their depth, and
the proof is an induction on this bound.  One step of it takes for granted how the calls
that arise on the way are answered (`Answers`), and looks at the ways to call one by one.

A call through a site differs from a plain call in two ways.  If the arguments do not have
the static types of the site, it may be turned down, so something is said about its outcome
only if they have them.  And a site may keep only one result.
-/

namespace AdaptiveScript

/-! ## Requests -/

namespace Request

/-- What is called. -/
def callee : Request → Value
  | .engine _ callee _ => callee
  | .direct ref _ => .function ref
  | .site _ _ callee _ => callee

/-- The site of a call exists. -/
def HasSite (m : Machine) : Request → Prop
  | .site _ id _ _ => 0 < id ∧ id ≤ m.sites.sites.size
  | _ => True

/-- The arguments of a call through a site have the static types of the site. -/
def Admitted (m : Machine) : Request → Prop
  | .site _ id _ args => m.AdmitsAll (m.sites.get id).static args
  | _ => True

/-- Whether only one result of a call is kept. -/
def truncates (m : Machine) : Request → Bool
  | .site _ id _ _ => (m.sites.get id).truncate
  | _ => false

end Request

/-- Nothing is said about the results of a function of the host. -/
theorem Machine.returns_of_host {m m' : Machine} (hg : m.Grows m') {ref : FunctionRef}
    {f : FunctionObject} (hfunction : m.heap.function? ref = some f) (hhost : ∀ c, f ≠ .closure c)
    (truncate : Bool) (vs : List Value) : m'.Returns truncate (.function ref) vs := by
  intro later hg' _ ref' types hadmits
  obtain ⟨_, c, hcallee, hc, -⟩ := Ty.admits_function.1 hadmits
  cases hcallee
  have hkept := (hg.trans hg').heap.function hfunction
  rw [Heap.closureOf?_eq_some.1 hc] at hkept
  exact absurd (Option.some.inj hkept).symm (hhost c)

/-- How the calls that arise on the way are answered. -/
structure Answers (again : Responder) (plain : Plain.Caller) : Prop where
  calls : CallsOk (fun engine site callee args => again (.site engine site callee args)) plain
  direct : ∀ {m : Machine}, m.Sound → ∀ (ref : FunctionRef) (args : List Value),
    Refines True m (again (.direct ref args)) (Plain.unknown : Plain (List Value))
      (fun _ _ => True) fun _ _ => True

/-! ## The host -/

section Host

variable {again : Responder} {plain : Plain.Caller} {m : Machine} {pre : Prop}
  {A : List Value → List Value → Prop}

/-- The host calls a value. -/
theorem refines_callValue (hagain : Answers again plain) (h : m.Sound) (callee : Value)
    (args : List Value) :
    Refines True m (callValue again callee args) (Plain.unknown : Plain (List Value))
      (fun _ _ => True) fun _ _ => True := by
  unfold callValue
  split
  · exact hagain.direct h _ args
  · exact Refines.raiseUnknown h fun _ => rfl

/-- Code of the host keeps machines sound and raises no error of specialized code, whatever
it asks for and whatever errors it handles. -/
theorem refines_perform (hagain : Answers again plain) (code : HostCode) {m : Machine}
    (h : m.Sound) : Refines pre m (perform again code) Plain.unknown A fun _ _ => True := by
  induction code generalizing m with
  | done results =>
    exact Refines.toUnknown (A := fun a b => b = a) (Q := fun _ _ => True)
      (Refines.pure (b := results) h rfl trivial) fun _ _ _ _ => trivial
  | raise fault => exact Refines.raiseUnknown h fun _ => rfl
  | call callee args next handles handler ihnext ihhandler =>
    rw [perform]
    refine (refines_callValue hagain h callee args).outcome.bindUnknown fun r m₁ hev hr => ?_
    cases r with
    | ok results => exact ihnext results hev.sound
    | error e =>
      -- an error that is not handled was none of specialized code when it was raised
      show Refines pre m₁ (if handles e then _ else _) _ _ _
      split
      · exact ihhandler e hev.sound
      · exact Refines.raiseUnknown hev.sound hr
  | makeTable next ih =>
    exact (refines_newTable h (.empty _) (.ofLayout _)).bindUnknown fun v _ hev _ => ih v hev.sound
  | read target key next ih =>
    have hread : Refines True m (Run.readKey target key) _ _ fun _ _ => True :=
      Refines.tryHeap (f := fun heap => indexValue heap target key) h
        (fun _ halike => halike.indexValue target key)
        (fun _ he => isViolation_of_isCodeFault (isCodeFault_indexValue he)) fun _ _ => trivial
    exact hread.bindUnknown fun v _ hev _ => ih v hev.sound
  | write target key v next ih =>
    exact (refines_storeIndex h target key v (fun heap => storeIndex heap target key v)
      rfl).bindUnknown fun _ _ hev _ => ih hev.sound
  | global engine name next ih => exact Refines.get (ih _ h)
  | setGlobal engine name v next ih =>
    exact (refines_setGlobal h engine name v).bindUnknown fun _ _ hev _ => ih hev.sound

theorem refines_runOverload (hagain : Answers again plain) (h : m.Sound) (ref : FunctionRef)
    (overloads : List Overload) (index : Nat) (args : List Value) :
    Refines pre m (runOverload again ref overloads index args) Plain.unknown A
      fun _ _ => True := by
  unfold runOverload
  split
  · exact refines_perform hagain _ h
  · exact Refines.toUnknown (β := List Value) (A := fun a b => b = a) (Q := fun _ _ => True)
      (Refines.raise h rfl) fun _ _ _ _ => trivial

theorem refines_runHost (hagain : Answers again plain) (h : m.Sound) (ref : FunctionRef)
    (overloads : List Overload) (args : List Value) :
    Refines pre m (runHost again ref overloads args) Plain.unknown A fun _ _ => True := by
  refine Refines.get ?_
  split
  · exact refines_runOverload hagain h ref overloads _ args
  · exact Refines.toUnknown (β := List Value) (A := fun a b => b = a) (Q := fun _ _ => True)
      (Refines.raise h rfl) fun _ _ _ _ => trivial

end Host

/-! ## Closures -/

namespace Linking

/-- The attempt of a target that is not tried again. -/
theorem attempt_results (again : Responder) (rounds : Nat) (engine : EngineId) (args : List Value)
    (result : Except RuntimeError Start) :
    (attempt again rounds engine args result >>= Attempt.results) =
      complete again rounds engine args (result.mapError Stop.error) := by
  cases result with
  | error reason => rfl
  | ok start =>
    rw [attempt, bind_assoc]
    simp only [pure_bind, Attempt.results, bind_pure]
    rfl

end Linking

section Closures

variable {again : Responder} {plain : Plain.Caller} {m : Machine} {ref : FunctionRef}
  {closure : Closure}

/-- Entering a routine whose check passes if promises are kept. -/
theorem refines_enter (hagain : Answers again plain) {pre : Prop} {spec : Specialization}
    {proto : Prototype} {args : List Value} (h : m.Sound)
    (hentered : spec.Passes m.shapes m.heap closure.cells args →
      spec.Entered m ref closure proto args)
    (hpasses : pre → m.Fair → m.Orderly → spec.Passes m.shapes m.heap closure.cells args)
    (rounds : Nat) (engine : EngineId) :
    Refines pre m (spec.enter again rounds engine closure.cells args >>= Attempt.results)
      (Plain.enter plain rounds engine proto closure.cells args)
      (fun vs us => vs = cut spec.signature.truncate us)
      fun vs m' => m'.Fair → spec.ResultsOk proto m' vs := by
  have hrun : (spec.enter again rounds engine closure.cells args >>= Attempt.results).run.run m =
      (Linking.complete again rounds engine args
        ((Linking.Specialization.begin m closure.cells args spec).mapError Stop.error)).run.run m := by
    rw [run_bind, Linking.run_enter, ← run_bind, Linking.attempt_results]
  refine Refines.congr hrun ?_
  cases hbegin : Linking.Specialization.begin m closure.cells args spec with
  | error reason =>
    refine Refines.never h (Linking.Specialization.isViolation_begin hbegin)
      fun hpre hfair horderly => ?_
    have hok := Linking.begin_of_passes (hpasses hpre hfair horderly)
    rw [hbegin] at hok
    cases hok
  | ok start =>
    obtain ⟨rfl, hok⟩ := Linking.begin_eq_ok hbegin
    exact (refines_routine hagain.calls (hentered hok) rounds engine).mono (fun _ _ => trivial)
      (fun _ _ hab => hab) fun _ _ _ hq => hq

/-- Calling a closure: the code that is made for the arguments takes them. -/
theorem refines_runClosure (hagain : Answers again plain) (h : m.Sound)
    (hclosure : m.heap.closureOf? ref = some closure) (rounds : Nat) (engine : EngineId)
    (args : List Value) :
    Refines True m (runClosure again rounds engine closure args)
      (Plain.callClosure plain rounds engine closure args) (fun vs us => vs = cut false us)
      fun vs m' => m'.Fair → m'.Returns false (.function ref) vs := by
  refine Refines.get ?_
  refine Refines.world h fun w halike => ?_
  rw [halike.program]
  cases hproto : m.program.prototype? closure.proto with
  | none =>
    have hrun : (Linking.specialize engine closure.proto (args.map (m.typeOf engine)) [] false
        >>= fun spec => spec.enter again rounds engine closure.cells args >>= Attempt.results).run.run
          m = (Run.raise (.compilation (.other closure.proto.name)) : Run (List Value)).run.run m := by
      rw [run_bind, Linking.specialize, run_get_bind, hproto]
      rfl
    exact Refines.congr hrun (Refines.raise h rfl)
  | some proto =>
    simp only [Option.map_some, Option.getD_some]
    have hhas := Linking.has_typeOf h engine args
    have hupvalues := Linking.has_identityUpvalueTypes h (m.engine engine).registry hproto
    refine Refines.prepare (Linking.yields_specialize h engine hproto false hhas hupvalues) ?_ ?_
      fun spec m₁ hcompiles hspec => ?_
    · intro e he
      obtain ⟨error, herror⟩ := Linking.fails_specialize engine closure.proto _ _ false _ he
      cases herror
      rfl
    · exact fun _ _ horderly => horderly.wellFormed proto (Program.mem_of_prototype? hproto)
    obtain ⟨hsignature, hid, hok⟩ := hspec
    have hprep := hcompiles.prepares
    have hgrows := hprep.evolves.grows
    have hclosure₁ : m₁.heap.closureOf? ref = some closure := by rw [hprep.heap, hclosure]
    have hproto₁ := hgrows.program.prototype? hproto
    have hsupports : proto.Supports m₁.shapes spec.signature.upvalues := by
      rw [hsignature]
      exact (Linking.supports_identityUpvalueTypes h.forest (m.engine engine).registry proto
        closure).mono hgrows.shapes h.forest hprep.sound.forest
    have hpasses (hfair : m₁.Fair) (horderly : m₁.Orderly) :
        spec.Passes m₁.shapes m₁.heap closure.cells args := by
      have hlength : closure.cells.length = proto.upvalues.size := by
        obtain ⟨other, hother, hlength⟩ := horderly.bound ref closure hclosure₁
        rw [hproto₁] at hother
        cases hother
        exact hlength
      have hkeeps := (hfair.of_evolves hprep.evolves).kept.keeps h hclosure hproto hlength
      obtain ⟨_, _, _, hvalid⟩ := hok
      refine Specialization.Passes.mono h hprep.sound hgrows hprep.heap hvalid.args_has
        hvalid.upvalues_has ?_
      refine Specialization.passes_of_signature h.forest hsignature
        (Machine.admitsAll_typeOf h.forest h.laid engine args) ?_
        fun i type cell => hkeeps.admits_identity h _
      rw [Linking.length_identityUpvalueTypes _ _ hlength, hlength]
    have htruncate : spec.signature.truncate = false := by
      rw [hsignature]
      rfl
    have henter := refines_enter hagain hprep.sound
      (fun hpass => ⟨hprep.sound, hok, hclosure₁, hproto₁, hid, hsupports, hpass⟩)
      (fun _ : True => hpasses) rounds engine
    rw [htruncate] at henter
    refine henter.mono (fun _ _ => trivial) (fun _ _ hab => hab) fun vs m' hev hvs hfair => ?_
    rw [← htruncate]
    exact (hvs hfair).returns (hev.grows.heap.closureOf? hclosure₁) hid

end Closures

/-! ## Functions -/

section Functions

variable {again : Responder} {plain : Plain.Caller} {m : Machine}

/-- Calling a function in the engine that it belongs to. -/
theorem refines_runDirect (hagain : Answers again plain) (h : m.Sound) (rounds : Nat)
    (ref : FunctionRef) (args : List Value) :
    Refines True m (runDirect again rounds ref args) (Plain.callDirect plain rounds ref args)
      (fun vs us => vs = cut false us)
      fun vs m' => m'.Fair → m'.Returns false (.function ref) vs := by
  refine Refines.get ?_
  refine Refines.plainHeap h fun plainHeap halike => ?_
  rw [halike.function? ref]
  cases hfunction : m.heap.function? ref with
  | none => exact Refines.raise h rfl
  | some f =>
    cases f with
    | closure closure =>
      refine Refines.world h fun w hw => ?_
      rw [hw.realm]
      show Refines True m (if (m.engine closure.engine).alive = true then _ else _)
        (if (m.engine closure.engine).alive = true then _ else _) _ _
      split
      · exact refines_runClosure hagain h (Heap.closureOf?_eq_some.2 hfunction) rounds _ args
      · exact Refines.raise h rfl
    | host overloads =>
      refine (refines_runHost hagain h ref overloads args).mono (fun _ _ => trivial)
        (fun _ _ hab => hab) fun vs m' hev _ _ =>
          Machine.returns_of_host hev.grows hfunction (fun c hc => ?_) false vs
      cases hc
    | foreign action =>
      refine (refines_perform hagain (action args) h).mono (fun _ _ => trivial)
        (fun _ _ hab => hab) fun vs m' hev _ _ =>
          Machine.returns_of_host hev.grows hfunction (fun c hc => ?_) false vs
      cases hc

section Plain

variable {α : Type} {pre : Prop} {x : Run α} {A : α → List Value → Prop} {Q : α → Machine → Prop}
  {rounds : Nat} {engine : EngineId} {ref : FunctionRef} {args : List Value}

/-- The plain call of a closure. -/
theorem Refines.callClosure {closure : Closure} (h : m.Sound)
    (hclosure : m.heap.closureOf? ref = some closure)
    (hx : Refines pre m x (Plain.callClosure plain rounds engine closure args) A Q) :
    Refines pre m x (Plain.callValue plain rounds engine (.function ref) args) A Q := by
  refine Refines.plainHeap h fun plainHeap halike => ?_
  rw [halike.function? ref, Heap.closureOf?_eq_some.1 hclosure]
  exact hx

/-- The plain call of a function of the host. -/
theorem Refines.callHost {f : FunctionObject} (h : m.Sound)
    (hfunction : m.heap.function? ref = some f) (hhost : ∀ c, f ≠ .closure c)
    (hx : Refines pre m x Plain.unknown A Q) :
    Refines pre m x (Plain.callValue plain rounds engine (.function ref) args) A Q := by
  refine Refines.plainHeap h fun plainHeap halike => ?_
  rw [halike.function? ref, hfunction]
  cases f with
  | closure c => exact absurd rfl (hhost c)
  | host overloads => exact hx
  | foreign action => exact hx

end Plain

/-- Calling a value in an engine. -/
theorem refines_runEngine (hagain : Answers again plain) (h : m.Sound) (rounds : Nat)
    (engine : EngineId) (callee : Value) (args : List Value) :
    Refines True m (runEngine again rounds engine callee args)
      (Plain.callValue plain rounds engine callee args) (fun vs us => vs = cut false us)
      fun vs m' => m'.Fair → m'.Returns false callee vs := by
  cases callee with
  | function ref =>
    refine Refines.congr (run_heap_bind _ m) ?_
    cases hclosure : m.heap.closureOf? ref with
    | some closure =>
      exact Refines.callClosure h hclosure
        (refines_runClosure hagain h hclosure rounds engine args)
    | none =>
      have hdirect := refines_runDirect hagain h rounds ref args
      cases hfunction : m.heap.function? ref with
      | none =>
        -- nothing is called either way
        refine Refines.plainHeap h fun plainHeap halike => ?_
        rw [halike.function? ref, hfunction]
        refine Refines.congr (y := Run.raise (.notCallable .function)) ?_ (Refines.raise h rfl)
        rw [runDirect, run_get_bind, hfunction]
      | some f =>
        refine Refines.callHost h hfunction (fun c hc => ?_) (hdirect.toUnknown fun _ _ _ hq => hq)
        rw [Heap.closureOf?, hfunction, hc] at hclosure
        cases hclosure
  | _ => exact Refines.raise h rfl

/-! ## Call sites -/

/-- A call that starts something. -/
theorem refines_start (hagain : Answers again plain) (h : m.Sound) {truncate : Bool}
    {callee : Value} {args : List Value} {start : Linking.Start}
    (hserves : start.Serves m truncate args callee) (rounds : Nat) (engine : EngineId) :
    Refines True m (start.run again rounds engine args)
      (Plain.callValue plain rounds engine callee args) (fun vs us => vs = cut truncate us)
      fun vs m' => m'.Fair → m'.Returns truncate callee vs := by
  cases hserves with
  | @routine ref closure proto spec hclosure hspec hid htruncate hproto hsupports hpasses =>
    refine Refines.callClosure h hclosure (Refines.world h fun w halike => ?_)
    rw [halike.program, hproto, ← htruncate]
    exact (refines_routine hagain.calls ⟨h, hspec, hclosure, hproto, hid, hsupports, hpasses⟩
      rounds engine).mono (fun _ _ => trivial) (fun _ _ hab => hab) fun vs m' hev hvs hfair =>
        (hvs hfair).returns (hev.grows.heap.closureOf? hclosure) hid
  | @overload ref bound overloads index _ hoverloads _ =>
    have hfunction := Heap.overloads?_eq_some.1 hoverloads
    have hhost (c : Closure) : FunctionObject.host overloads ≠ .closure c := fun hc => by cases hc
    exact Refines.callHost h hfunction hhost
      ((refines_runOverload hagain h bound overloads index args).mono (fun _ _ => trivial)
        (fun _ _ hab => hab) fun vs m' hev _ _ =>
          Machine.returns_of_host hev.grows hfunction hhost truncate vs)
  | @direct ref bound action _ hfunction =>
    have hhost (c : Closure) : FunctionObject.foreign action ≠ .closure c := fun hc => by cases hc
    exact Refines.callHost h hfunction hhost
      ((refines_runDirect hagain h rounds bound args).toUnknown fun vs m' hev _ _ =>
        Machine.returns_of_host hev.grows hfunction hhost truncate vs)

/-- If promises are kept, every callee keeps what it declares. -/
theorem Machine.Fair.keeps (h : m.Sound) (hfair : m.Fair) (horderly : m.Orderly)
    (callee : Value) : Linking.Keeps m callee := by
  intro closure hclosure
  cases callee with
  | function ref =>
    obtain ⟨proto, hproto, hlength⟩ := horderly.bound ref closure hclosure
    exact ⟨proto, hfair.kept.keeps h hclosure hproto hlength⟩
  | _ => cases hclosure

/-- A call that cannot be linked, although its callee could be if it were a closure, stops as
the plain call does. -/
theorem stops_of_failure {args : List Value} {callee : Value} {stop : Stop}
    (hfails : Linking.Failure m engine args callee stop)
    (hready : ∀ ref closure, callee = .function ref →
      m.heap.function? ref = some (.closure closure) → ¬ ∃ proto, Linking.Ready m closure proto)
    (horderly : m.Orderly) {rounds : Nat} {engine : EngineId} {w w' : World}
    {outcome : Except Stop (List Value)} (halike : m.Alike w)
    (hrun : (Plain.callValue plain rounds engine callee args).run.run w = some (outcome, w')) :
    outcome = .error stop ∧ w' = w := by
  -- closures could be linked
  have hclosures {ref : FunctionRef} {closure : Closure}
      (hclosure : m.heap.function? ref = some (.closure closure)) (hcallee : callee = .function ref) :
      False := by
    obtain ⟨proto, hproto, hlength⟩ :=
      horderly.bound ref closure (Heap.closureOf?_eq_some.2 hclosure)
    exact hready ref closure hcallee hclosure
      ⟨proto, hproto, hlength, horderly.wellFormed proto (Program.mem_of_prototype? hproto)⟩
  have hplain (ref : FunctionRef) : w.heap.function? ref = m.heap.function? ref :=
    halike.heap.function? ref
  cases hfails with
  | notCallable hnone =>
    cases callee with
    | function ref =>
      rw [Plain.callValue, Plain.run_heap_bind, hplain, hnone ref rfl] at hrun
      cases hrun
      exact ⟨rfl, rfl⟩
    | _ =>
      cases hrun
      exact ⟨rfl, rfl⟩
  | compilation hclosure => exact (hclosures hclosure rfl).elim
  | binding hclosure _ => exact (hclosures hclosure rfl).elim
  | noOverload hhost _ =>
    rw [Plain.callValue, Plain.run_heap_bind, hplain, hhost] at hrun
    cases hrun

/-- Calling a value through a site. -/
theorem refines_invoke (hagain : Answers again plain) (h : m.Sound) {id : Nat} {static : List Ty}
    {truncate : Bool} (hsite : m.sites.Has id static truncate) (rounds : Nat) (engine : EngineId)
    (callee : Value) (args : List Value) :
    Refines (m.AdmitsAll static args) m (Linking.invoke again rounds engine id callee args)
      (Plain.callValue plain rounds engine callee args) (fun vs us => vs = cut truncate us)
      fun vs m' => m'.Fair → m'.Returns truncate callee vs := by
  obtain ⟨result, m₁, hdispatch, hprep, heq⟩ := Linking.invoke_eq engine h hsite callee args
  have hrecord := Machine.Prepares.recordCall h engine id callee args
  have hcomplete : Refines (m.AdmitsAll static args) m₁
      (Linking.complete again rounds engine args result)
      (Plain.callValue plain rounds engine callee args) (fun vs us => vs = cut truncate us)
      fun vs m' => m'.Fair → m'.Returns truncate callee vs := by
    cases result with
    | ok start =>
      exact (refines_start hagain hprep.sound (hdispatch.serves hrecord.sound hsite) rounds engine).mono
        (fun _ _ => trivial) (fun _ _ hab => hab) fun _ _ _ hvs => hvs
    | error stop =>
      refine Refines.stops hprep.sound (fun e he => ?_) fun hstatic hfair horderly => ?_
      · subst he
        exact hdispatch.isViolation hrecord.sound
      · intro w w' outcome halike hrun
        have horderly₀ := horderly.of_prepares hprep
        have hargs : (m.recordCall engine id callee args).AdmitsAll static args :=
          ⟨hstatic.length, hstatic.admits⟩
        have hkeeps := ((hfair.of_evolves hprep.evolves).keeps h horderly₀ callee).mono h hrecord
        have hfails : Linking.Failure m engine args callee stop := by
          refine (hdispatch.failure hrecord.sound hsite hargs hkeeps).2.congr rfl rfl rfl rfl
        refine stops_of_failure hfails ?_ horderly₀ (hprep.alike_iff.1 halike) hrun
        rintro ref closure rfl hclosure ⟨proto, hready⟩
        obtain ⟨start, hstart⟩ := hdispatch.exists_start hrecord.sound hsite hargs hkeeps
          (.closure hclosure ⟨hready.prototype, hready.length, hready.body⟩)
        cases hstart
  unfold Refines
  rw [heq]
  exact Ends.of_prepares hprep (.call h hsite hdispatch hprep (.refl m₁)) hcomplete

end Functions

/-! ## Tying the knot -/

/-- What is said about the answer to a request. -/
def Answered (x : Run (List Value)) (p : Plain (List Value)) (m : Machine) (request : Request) :
    Prop :=
  Refines (request.Admitted m) m x p (fun vs us => vs = cut (request.truncates m) us)
    fun vs m' => m'.Fair → m'.Returns (request.truncates m) request.callee vs

/-- One step: the ways to call. -/
theorem answered_respond {again : Responder} {plain : Plain.Caller} (hagain : Answers again plain)
    {m : Machine} (h : m.Sound) (rounds : Nat) {request : Request} (hsite : request.HasSite m) :
    Answered (respond again rounds request) (Plain.respond plain rounds request) m request := by
  cases request with
  | engine engine callee args => exact refines_runEngine hagain h rounds engine callee args
  | direct ref args => exact refines_runDirect hagain h rounds ref args
  | site engine id callee args =>
    obtain ⟨hpos, hle⟩ := hsite
    exact refines_invoke hagain h ⟨hpos, hle, rfl, rfl⟩ rounds engine callee args

/-- Plain execution has no sites. -/
theorem Plain.answer_site (depth : Nat) (engine : EngineId) (id : SiteId) (callee : Value)
    (args : List Value) :
    answer depth (.site engine id callee args) = answer depth (.engine engine callee args) := by
  cases depth <;> rfl

/-- The answers to all requests are what calls on the way count on. -/
theorem Answers.of_answered {depth : Nat}
    (h : ∀ {m : Machine} {request : Request}, m.Sound → request.HasSite m →
      Answered (answer depth request) (Plain.answer depth request) m request) :
    Answers (answer depth) fun engine callee args =>
      Plain.answer depth (.engine engine callee args) where
  calls {m} hm engine {id} {static} {truncate} hsite callee args := by
    have hanswered : Answered (answer depth (.site engine id callee args))
        (Plain.answer depth (.site engine id callee args)) m (.site engine id callee args) :=
      h hm ⟨hsite.pos, hsite.le⟩
    rw [Plain.answer_site, Answered, Request.Admitted, Request.truncates, hsite.static_eq,
      hsite.truncate_eq] at hanswered
    exact hanswered
  direct {m} hm ref args := by
    have hanswered : Answered (answer depth (.direct ref args))
        (Plain.answer depth (.direct ref args)) m (.direct ref args) := h hm trivial
    exact Refines.toUnknown hanswered fun _ _ _ _ => trivial

/-- **Calls** do what plain calls do. -/
theorem answered_answer (depth : Nat) : ∀ {m : Machine} {request : Request}, m.Sound →
    request.HasSite m → Answered (answer depth request) (Plain.answer depth request) m request := by
  induction depth with
  | zero =>
    intro m request h _
    exact Refines.throw h nofun
  | succ depth ih =>
    intro m request h hsite
    exact answered_respond (.of_answered ih) h depth hsite

end AdaptiveScript
