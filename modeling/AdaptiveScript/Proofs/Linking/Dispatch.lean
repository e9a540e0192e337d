import AdaptiveScript.Call
import AdaptiveScript.Proofs.Linking.Link

/-!
# How a call through a site gets to code

A call through a site has two parts.  In the first, the site is linked if it has to be, and
checks are made: the guard of the link, and the check of its target.  In the second, some
code is started.  `Linking.Dispatch` describes the first part, `Linking.Start` is what the
second part runs, and `Linking.invoke_eq` says that a call is these two parts in a row.

So a call starts at most one body, it enters the linker at most once and before that body,
and nothing happens after the body: what the body gives or raises is what the call gives or
raises.  The first part changes nothing that a program can notice.
-/

namespace AdaptiveScript

theorem run_heap_bind {α : Type} (f : Heap → Run α) (m : Machine) :
    (Run.heap >>= f).run.run m = (f m.heap).run.run m :=
  rfl

namespace Linking

/-! ## Starting code -/

/-- What a call runs once all checks are made. -/
inductive Start where
  /-- The body of a routine, with the cells of a closure. -/
  | routine (spec : Specialization) (cells : List CellId)
  /-- One overload of a host function. -/
  | overload (function : FunctionRef) (overloads : List Overload) (index : Nat)
  /-- Another callable of the host. -/
  | direct (function : FunctionRef)

/-- Run what is to run. -/
def Start.run (again : Responder) (rounds : Nat) (engine : EngineId) (args : List Value) :
    Start → Run (List Value)
  | .routine spec cells => spec.run again rounds engine cells args
  | .overload ref overloads index => runOverload again ref overloads index args
  | .direct ref => runDirect again rounds ref args

/-- The check of a routine: what to start, or why the arguments are turned down. -/
def Specialization.begin (m : Machine) (cells : List CellId) (args : List Value)
    (spec : Specialization) : Except RuntimeError Start :=
  (spec.check m.shapes m.heap cells args).map fun _ => .routine spec cells

/-- The check of a target: what to start, or why the callee or the arguments are turned
down. -/
def Target.begin (m : Machine) (callee : Value) (args : List Value) :
    Target → Except RuntimeError Start
  | .instance spec cells => Specialization.begin m cells args spec
  | .prototype spec =>
    match m.heap.closure? callee with
    | some closure => Specialization.begin m closure.cells args spec
    | none => .error .nonClosureCallee
  | .host ref index =>
    match m.heap.overloads? ref with
    | none => .error .hostTargetLost
    | some overloads =>
      if Overload.matchesAt m.shapes m.heap overloads index args then
        .ok (.overload ref overloads index)
      else .error (.overloadMismatch index ref.name)
  | .foreign ref => .ok (.direct ref)

/-- The attempt that goes with the outcome of a check. -/
def attempt (again : Responder) (rounds : Nat) (engine : EngineId) (args : List Value) :
    Except RuntimeError Start → Run Attempt
  | .ok start => return .finished (← start.run again rounds engine args)
  | .error reason => return .rejected reason

section Attempts

variable (again : Responder) (rounds : Nat) (engine : EngineId)

theorem run_enter (m : Machine) (spec : Specialization) (cells : List CellId) (args : List Value) :
    (spec.enter again rounds engine cells args).run.run m =
      (attempt again rounds engine args (Specialization.begin m cells args spec)).run.run m := by
  unfold Specialization.enter
  rw [run_get_bind]
  unfold Specialization.begin
  cases spec.check m.shapes m.heap cells args <;> rfl

/-- A target that serves a callee makes its check, and then runs or turns down. -/
theorem run_target {m : Machine} {truncate : Bool} {callee : Value} {target : Target}
    (hserves : target.Serves m truncate callee) (args : List Value) :
    (target.run again rounds engine callee args).run.run m =
      (attempt again rounds engine args (target.begin m callee args)).run.run m := by
  cases target with
  | «instance» spec cells => exact run_enter again rounds engine m spec cells args
  | «prototype» spec =>
    rw [Target.run, run_heap_bind, Target.begin]
    cases m.heap.closure? callee with
    | none => rfl
    | some closure => exact run_enter again rounds engine m spec closure.cells args
  | host ref index =>
    obtain ⟨guard, -, hvalid⟩ := hserves
    cases hvalid with
    | host hoverloads _ =>
      rw [Target.run, run_get_bind, Target.begin, hoverloads]
      dsimp only
      cases Overload.matchesAt m.shapes m.heap _ index args <;> rfl
  | foreign ref => rfl

end Attempts

/-! ## What is started -/

/-- What is started is the code of the callee, it took the arguments, and it keeps as many
results as the site does. -/
inductive Start.Serves (m : Machine) (truncate : Bool) (args : List Value) : Value → Start → Prop
  | routine {ref : FunctionRef} {closure : Closure} {proto : Prototype} {spec : Specialization} :
    m.heap.closureOf? ref = some closure → m.SpecOk spec → spec.proto.id = closure.proto.id →
    spec.signature.truncate = truncate → m.program.prototype? closure.proto = some proto →
    proto.Supports m.shapes spec.signature.upvalues →
    spec.Passes m.shapes m.heap closure.cells args →
    Serves m truncate args (.function ref) (.routine spec closure.cells)
  | overload {ref bound : FunctionRef} {overloads : List Overload} {index : Nat} :
    bound.id = ref.id → m.heap.overloads? ref = some overloads →
    Overload.matchesAt m.shapes m.heap overloads index args = true →
    Serves m truncate args (.function ref) (.overload bound overloads index)
  | direct {ref bound : FunctionRef} {action : Action} :
    bound.id = ref.id → m.heap.function? ref = some (.foreign action) →
    Serves m truncate args (.function ref) (.direct bound)

theorem supports_of_static {shapes : Shapes} {proto : Prototype} {types : List Ty}
    (h : types.map (Ty.canonical shapes) =
      proto.staticUpvalueTypes.map (Ty.canonical shapes)) : proto.Supports shapes types := by
  intro i type htype
  have hcanonical : (types.map (Ty.canonical shapes))[i]? = some (type.canonical shapes) := by
    rw [List.getElem?_map, htype]
    rfl
  rw [h, List.getElem?_map, Prototype.getElem?_staticUpvalueTypes] at hcanonical
  obtain ⟨static, hstatic, heq⟩ := Option.map_eq_some_iff.1 hcanonical
  obtain ⟨template, htemplate, rfl⟩ := Option.map_eq_some_iff.1 hstatic
  cases hknown : template.knownType with
  | some declared =>
    rw [UpvalueTemplate.staticType, hknown] at heq
    exact .inr ⟨template, htemplate, .inr ⟨declared, hknown, heq⟩⟩
  | none =>
    rw [UpvalueTemplate.staticType, hknown] at heq
    cases type <;> first | exact .inl rfl | cases heq

theorem begin_eq_ok {m : Machine} {spec : Specialization} {cells : List CellId}
    {args : List Value} {start : Start}
    (h : Specialization.begin m cells args spec = .ok start) :
    start = .routine spec cells ∧ spec.Passes m.shapes m.heap cells args := by
  unfold Specialization.begin at h
  cases hcheck : spec.check m.shapes m.heap cells args with
  | error reason =>
    rw [hcheck] at h
    cases h
  | ok u =>
    rw [hcheck] at h
    cases h
    exact ⟨rfl, Specialization.check_eq_ok_iff.1 hcheck⟩

theorem begin_of_passes {m : Machine} {spec : Specialization} {cells : List CellId}
    {args : List Value} (h : spec.Passes m.shapes m.heap cells args) :
    Specialization.begin m cells args spec = .ok (.routine spec cells) := by
  unfold Specialization.begin
  rw [Specialization.check_eq_ok_iff.2 h]
  rfl

/-- Only functions pass guards, and identity guards let one function pass. -/
theorem Guard.eq_of_holds {heap : Heap} {bound : FunctionRef} {callee : Value}
    (h : (Guard.identity bound).holds heap callee = true) :
    ∃ ref : FunctionRef, callee = .function ref ∧ bound.id = ref.id := by
  cases callee with
  | function ref => exact ⟨ref, rfl, eq_of_beq h⟩
  | _ => cases h

/-- What a target starts is the code of the callee. -/
theorem Target.Serves.start {m : Machine} {truncate : Bool} {callee : Value} {args : List Value}
    {target : Target} {start : Start} (hserves : target.Serves m truncate callee)
    (hbegin : target.begin m callee args = .ok start) : start.Serves m truncate args callee := by
  obtain ⟨guard, hguard, hvalid⟩ := hserves
  cases hvalid with
  | closure hclosure hspec hid htruncate _ hproto hsupports =>
    obtain ⟨ref, rfl, hsame⟩ := Guard.eq_of_holds hguard
    obtain ⟨rfl, hpasses⟩ := begin_eq_ok hbegin
    refine .routine ?_ hspec hid htruncate hproto hsupports hpasses
    rw [← hclosure, Heap.closureOf?, Heap.closureOf?, Heap.function?, Heap.function?, hsame]
  | prototype hspec hid htruncate hproto hstatic =>
    cases callee with
    | function ref =>
      cases hclosure : m.heap.closureOf? ref with
      | none => simp [Guard.holds, hclosure] at hguard
      | some closure =>
        simp only [Guard.holds, hclosure, beq_iff_eq] at hguard
        rw [Target.begin, Heap.closure?, hclosure] at hbegin
        obtain ⟨rfl, hpasses⟩ := begin_eq_ok hbegin
        refine .routine hclosure hspec (hid.trans hguard.symm) htruncate ?_
          (supports_of_static hstatic) hpasses
        rw [← hproto, Program.prototype?, Program.prototype?, hid, hguard]
    | _ => cases hguard
  | host hoverloads _ =>
    obtain ⟨ref, rfl, hsame⟩ := Guard.eq_of_holds hguard
    rw [Target.begin, hoverloads] at hbegin
    dsimp only at hbegin
    split at hbegin
    · next hmatches =>
      cases hbegin
      refine .overload hsame ?_ hmatches
      rw [← hoverloads, Heap.overloads?, Heap.overloads?, Heap.function?, Heap.function?, hsame]
    · cases hbegin
  | foreign hfunction =>
    obtain ⟨ref, rfl, hsame⟩ := Guard.eq_of_holds hguard
    cases hbegin
    refine .direct hsame (Eq.trans ?_ hfunction)
    rw [Heap.function?, Heap.function?, hsame]

/-- A target that takes the arguments starts something. -/
theorem Target.Accepts.begin {m : Machine} {callee : Value} {args : List Value} {target : Target}
    (h : target.Accepts m callee args) : ∃ start, target.begin m callee args = .ok start := by
  cases target with
  | «instance» spec cells => exact ⟨_, begin_of_passes h⟩
  | «prototype» spec =>
    obtain ⟨closure, hclosure, hpasses⟩ := h
    rw [Target.begin, hclosure]
    exact ⟨_, begin_of_passes hpasses⟩
  | host ref index =>
    obtain ⟨overloads, hoverloads, hmatches⟩ := h
    rw [Target.begin, hoverloads]
    dsimp only
    rw [hmatches]
    exact ⟨_, rfl⟩
  | foreign ref => exact ⟨_, rfl⟩

/-! ## What is promised about a call -/

theorem Keeps.mono {m m' : Machine} (h : m.Sound) (hprep : m.Prepares m') {callee : Value}
    (hkeeps : Keeps m callee) : Keeps m' callee := by
  intro closure hclosure
  rw [hprep.heap] at hclosure
  obtain ⟨proto, hproto⟩ := hkeeps closure hclosure
  refine ⟨proto, hprep.evolves.grows.program.prototype? hproto.prototype, hproto.length, ?_⟩
  intro i template cell type htemplate hcell htype
  have hhas := has_knownType h hproto.prototype htemplate htype
  have hadmits := hproto.declared i template cell type htemplate hcell htype
  rw [hprep.heap]
  exact h.admits hprep.sound hprep.evolves.grows hhas hadmits

/-! ## The first part of a call -/

section Calls

variable (m : Machine) (engine : EngineId) (id : SiteId) (callee : Value) (args : List Value)

/-- Why a call enters the linker, and the machine that it enters it with. -/
inductive Relinks : Machine → Prop
  /-- The site has no link. -/
  | unlinked : (m.sites.get id).link = none → Relinks m
  /-- The guard of the link does not let the callee pass. -/
  | guardFailed {link : Link} : (m.sites.get id).link = some link →
    link.guard.holds m.heap callee = false →
    Relinks ((m.modifyEngine engine fun e => e.count Stats.addGuardFailure).note
      (.guardFailed id callee))
  /-- The target of the link turns the arguments down. -/
  | rejected {link : Link} {reason : RuntimeError} : (m.sites.get id).link = some link →
    link.guard.holds m.heap callee = true → link.target.begin m callee args = .error reason →
    Relinks ((m.modifyEngine engine fun e => e.count Stats.addDeoptimization).note
      (.rejected id link.target.name reason))

/-- How a call through a site gets to what it starts, or ends before it starts anything. -/
inductive Dispatch : Except Stop Start → Machine → Prop
  /-- The link in place takes the call. -/
  | inPlace {link : Link} {start : Start} : (m.sites.get id).link = some link →
    link.guard.holds m.heap callee = true → link.target.begin m callee args = .ok start →
    Dispatch (.ok start) m
  /-- The linker is entered, and what it chooses takes the call. -/
  | linked {m₀ m₁ : Machine} {outcome : Outcome} {start : Start} :
    Relinks m engine id callee args m₀ →
    (enter (.of m.toState) engine id callee args).run.run m₀ = (.ok outcome, m₁) →
    outcome.target.begin m₁ callee args = .ok start → Dispatch (.ok start) m₁
  /-- The linker is entered, and what it chooses turns the arguments down. -/
  | refused {m₀ m₁ : Machine} {outcome : Outcome} {reason : RuntimeError} :
    Relinks m engine id callee args m₀ →
    (enter (.of m.toState) engine id callee args).run.run m₀ = (.ok outcome, m₁) →
    outcome.target.begin m₁ callee args = .error reason → Dispatch (.error (.error reason)) m₁
  /-- The linker is entered and fails. -/
  | failed {m₀ m₁ : Machine} {stop : Stop} : Relinks m engine id callee args m₀ →
    (enter (.of m.toState) engine id callee args).run.run m₀ = (.error stop, m₁) →
    Dispatch (.error stop) m₁

end Calls

theorem Relinks.prepares {m m₀ : Machine} (h : m.Sound) {engine : EngineId} {id : SiteId}
    {callee : Value} {args : List Value} (hrelinks : Relinks m engine id callee args m₀) :
    m.Prepares m₀ := by
  cases hrelinks with
  | unlinked => exact .refl h
  | guardFailed =>
    have hcount : m.Prepares (m.modifyEngine engine fun e => e.count Stats.addGuardFailure) :=
      .modifyEngine h engine fun _ => rfl
    exact hcount.trans (.note hcount.sound _)
  | rejected =>
    have hcount : m.Prepares (m.modifyEngine engine fun e => e.count Stats.addDeoptimization) :=
      .modifyEngine h engine fun _ => rfl
    exact hcount.trans (.note hcount.sound _)

/-- The linker finds code for the same callees after the call was remembered. -/
theorem Linkable.recordCall {m : Machine} {args : List Value} {callee : Value}
    (h : Linkable m args callee) (engine : EngineId) (id : SiteId) :
    Linkable (m.recordCall engine id callee args) args callee := by
  cases h with
  | closure hfunction hready =>
    exact .closure hfunction ⟨hready.prototype, hready.length, hready.body⟩
  | host hfunction hselect => exact .host hfunction hselect
  | foreign hfunction => exact .foreign hfunction

/-- The linker finds code for the same callees while it is entered. -/
theorem Relinks.linkable {m m₀ : Machine} {engine : EngineId} {id : SiteId} {callee : Value}
    {args : List Value} (hrelinks : Relinks m engine id callee args m₀)
    (h : Linkable m args callee) : Linkable m₀ args callee := by
  cases hrelinks <;>
    cases h with
    | closure hfunction hready =>
      exact .closure hfunction ⟨hready.prototype, hready.length, hready.body⟩
    | host hfunction hselect => exact .host hfunction hselect
    | foreign hfunction => exact .foreign hfunction

namespace Dispatch

variable {m m₁ : Machine} {engine : EngineId} {id : Nat} {static : List Ty} {truncate : Bool}
  {callee : Value} {args : List Value}

/-- What a call starts is the code of the callee. -/
theorem serves (h : m.Sound) (hsite : m.sites.Has id static truncate) {start : Start}
    (hdispatch : Dispatch m engine id callee args (.ok start) m₁) :
    start.Serves m₁ truncate args callee := by
  cases hdispatch with
  | inPlace hlink hguard hbegin =>
    have hvalid := h.links id _ hlink
    rw [hsite.truncate_eq] at hvalid
    exact Target.Serves.start ⟨_, hguard, hvalid⟩ hbegin
  | linked hrelinks hrun hbegin =>
    have hprep₀ := hrelinks.prepares h
    have hlink := yields_enter hprep₀.sound (.of m.toState) engine
      (hprep₀.evolves.grows.sites hsite) callee args
    have hsuits := hlink.post (congrArg Prod.fst hrun)
    rw [hrun] at hsuits
    exact hsuits.serves.start hbegin

/-- If the arguments have the static types of the site and the callee keeps what it declares,
what the linker chooses does not turn the call down. -/
theorem eq_link_error (h : m.Sound) (hsite : m.sites.Has id static truncate)
    (hargs : m.AdmitsAll static args) (hkeeps : Keeps m callee) {stop : Stop}
    (hdispatch : Dispatch m engine id callee args (.error stop) m₁) :
    ∃ m₀, Relinks m engine id callee args m₀ ∧
      (enter (.of m.toState) engine id callee args).run.run m₀ = (.error stop, m₁) := by
  cases hdispatch with
  | refused hrelinks hrun hbegin =>
    have hprep₀ := hrelinks.prepares h
    have hlink := yields_enter hprep₀.sound (.of m.toState) engine
      (hprep₀.evolves.grows.sites hsite) callee args
    have hsuits := hlink.post (congrArg Prod.fst hrun)
    rw [hrun] at hsuits
    obtain ⟨start, hstart⟩ := (hsuits.accepts ⟨hargs.mono h hprep₀ (hsite.static_eq ▸ h.static id),
      hkeeps.mono h hprep₀⟩).begin
    rw [hstart] at hbegin
    cases hbegin
  | failed hrelinks hrun => exact ⟨_, hrelinks, hrun⟩

/-- If the linker finds code for the callee, the call starts something. -/
theorem exists_start (h : m.Sound) (hsite : m.sites.Has id static truncate)
    (hargs : m.AdmitsAll static args) (hkeeps : Keeps m callee) (hlinkable : Linkable m args callee)
    {result : Except Stop Start} (hdispatch : Dispatch m engine id callee args result m₁) :
    ∃ start, result = .ok start := by
  cases result with
  | ok start => exact ⟨start, rfl⟩
  | error stop =>
    obtain ⟨m₀, hrelinks, hrun⟩ := hdispatch.eq_link_error h hsite hargs hkeeps
    have hprep₀ := hrelinks.prepares h
    obtain ⟨outcome, houtcome⟩ := (yields_enter hprep₀.sound (.of m.toState) engine
      (hprep₀.evolves.grows.sites hsite) callee args).total (hrelinks.linkable hlinkable)
    rw [hrun] at houtcome
    cases houtcome

end Dispatch

/-- The second part of a call. -/
def complete (again : Responder) (rounds : Nat) (engine : EngineId) (args : List Value) :
    Except Stop Start → Run (List Value)
  | .ok start => start.run again rounds engine args
  | .error stop => throw stop

section Calls

variable {m : Machine} (engine : EngineId) {id : Nat} {static : List Ty} {truncate : Bool}
  {callee : Value} {args : List Value}

/-- A call that enters the linker. -/
theorem exists_dispatch_relink (h : m.Sound) (hsite : m.sites.Has id static truncate)
    {m₀ : Machine} (hrelinks : Relinks m engine id callee args m₀) :
    ∃ result m₁, Dispatch m engine id callee args result m₁ ∧ m.Prepares m₁ ∧
      ∀ again rounds, (relink again rounds (.of m.toState) engine id callee args).run.run m₀ =
        (complete again rounds engine args result).run.run m₁ := by
  have hprep₀ := hrelinks.prepares h
  have hlink := yields_enter hprep₀.sound (.of m.toState) engine
    (hprep₀.evolves.grows.sites hsite) callee args
  cases hrun : (enter (.of m.toState) engine id callee args).run.run m₀ with
  | mk result m₁ =>
    have hprep₁ : m.Prepares m₁ := by
      have hprep := hlink.evolves
      rw [hrun] at hprep
      exact hprep₀.trans hprep
    cases result with
    | error stop =>
      refine ⟨.error stop, m₁, .failed hrelinks hrun, hprep₁, fun again rounds => ?_⟩
      unfold relink
      rw [run_bind, hrun]
      rfl
    | ok outcome =>
      have hserves : outcome.target.Serves m₁ truncate callee := by
        have hsuits := hlink.post (congrArg Prod.fst hrun)
        rw [hrun] at hsuits
        exact hsuits.serves
      have hrelink (again : Responder) (rounds : Nat) :
          (relink again rounds (.of m.toState) engine id callee args).run.run m₀ =
            (attempt again rounds engine args (outcome.target.begin m₁ callee args) >>=
              Attempt.results).run.run m₁ := by
        unfold relink
        rw [run_bind, hrun]
        dsimp only
        rw [run_bind, run_target again rounds engine hserves args, ← run_bind]
      cases hbegin : outcome.target.begin m₁ callee args with
      | error reason =>
        refine ⟨.error (.error reason), m₁, .refused hrelinks hrun hbegin, hprep₁,
          fun again rounds => ?_⟩
        rw [hrelink, hbegin]
        rfl
      | ok start =>
        refine ⟨.ok start, m₁, .linked hrelinks hrun hbegin, hprep₁, fun again rounds => ?_⟩
        rw [hrelink, hbegin, attempt, bind_assoc]
        simp only [pure_bind, Attempt.results, bind_pure]
        rfl

theorem proceed_eq (h : m.Sound) (hsite : m.sites.Has id static truncate) (callee : Value)
    (args : List Value) :
    ∃ result m₁, Dispatch m engine id callee args result m₁ ∧ m.Prepares m₁ ∧
      ∀ again rounds, (proceed again rounds engine id callee args).run.run m =
        (complete again rounds engine args result).run.run m₁ := by
  cases hlink : (m.sites.get id).link with
  | none =>
    have hrelinks : Relinks m engine id callee args m := .unlinked hlink
    obtain ⟨result, m₁, hdispatch, hprep, heq⟩ := exists_dispatch_relink engine h hsite hrelinks
    refine ⟨result, m₁, hdispatch, hprep, fun again rounds => ?_⟩
    rw [proceed, run_get_bind, hlink, ← heq]
  | some link =>
    cases hguard : link.guard.holds m.heap callee with
    | false =>
      have hrelinks : Relinks m engine id callee args _ := .guardFailed hlink hguard
      obtain ⟨result, m₁, hdispatch, hprep, heq⟩ := exists_dispatch_relink engine h hsite hrelinks
      refine ⟨result, m₁, hdispatch, hprep, fun again rounds => ?_⟩
      rw [proceed, run_get_bind, hlink, ← heq]
      dsimp only
      rw [hguard]
      rfl
    | true =>
      have hserves : link.target.Serves m (m.sites.get id).truncate callee :=
        ⟨link.guard, hguard, h.links id link hlink⟩
      cases hbegin : link.target.begin m callee args with
      | error reason =>
        have hrelinks : Relinks m engine id callee args _ := .rejected hlink hguard hbegin
        obtain ⟨result, m₁, hdispatch, hprep, heq⟩ := exists_dispatch_relink engine h hsite hrelinks
        refine ⟨result, m₁, hdispatch, hprep, fun again rounds => ?_⟩
        rw [proceed, run_get_bind, hlink, ← heq]
        dsimp only
        rw [hguard, if_pos rfl, run_bind, run_target again rounds engine hserves args, hbegin]
        rfl
      | ok start =>
        refine ⟨.ok start, m, .inPlace hlink hguard hbegin, .refl h, fun again rounds => ?_⟩
        rw [proceed, run_get_bind, hlink]
        dsimp only
        rw [hguard, if_pos rfl, run_bind, run_target again rounds engine hserves args, hbegin,
          ← run_bind, attempt, bind_assoc]
        simp only [pure_bind, bind_pure]
        rfl

/-- **A call through a site** is remembered and gets to what it starts, and then it is the run
of that. -/
theorem invoke_eq (h : m.Sound) (hsite : m.sites.Has id static truncate) (callee : Value)
    (args : List Value) :
    ∃ result m₁, Dispatch (m.recordCall engine id callee args) engine id callee args result m₁ ∧
      m.Prepares m₁ ∧
      ∀ again rounds, (invoke again rounds engine id callee args).run.run m =
        (complete again rounds engine args result).run.run m₁ := by
  have hrecord := Machine.Prepares.recordCall h engine id callee args
  obtain ⟨result, m₁, hdispatch, hprep, heq⟩ := proceed_eq engine hrecord.sound hsite callee args
  exact ⟨result, m₁, hdispatch, hrecord.trans hprep, heq⟩

end Calls
end Linking
end AdaptiveScript
