import AdaptiveScript.Proofs.Linking.Dispatch
import AdaptiveScript.Proofs.Machine.Request

/-!
# What an entry into the linker comes to

The linker may ask for one specialization, and then it publishes a link, calls an overload once,
or gives up (`Linking.Links`).  A link is published as a whole: the site holds the new link and
its policy has taken the link into account.  In the other two cases the site is as it was.
Nothing is assumed about the machine but that everything in it has its place
(`State.Housed`).
-/

namespace AdaptiveScript
namespace Linking

/-! ## Specializations -/

/-- What a request for a specialization comes to while a program runs. -/
inductive Obtains (m : Machine) (engine : EngineId) :
    Except Stop Specialization → Machine → Prop
  | code {spec : Specialization} {m' : Machine} : m.Asks engine m' →
    m'.sites.HasAll (Step.allSites spec.body) → Obtains m engine (.ok spec) m'
  | error {error : CompileError} {m' : Machine} : m.MayAsk engine m' →
    Obtains m engine (.error (.error (.compilation error))) m'

theorem obtains_specialize {m : Machine} (h : m.Housed) (engine : EngineId) (ref : PrototypeRef)
    (args upvalues : List Ty) (truncate : Bool) :
    ∃ result m', (specialize engine ref args upvalues truncate).run.run m = (result, m') ∧
      Obtains m engine result m' := by
  cases hproto : m.program.prototype? ref with
  | none =>
    refine ⟨.error (.error (.compilation (.other ref.name))), m, ?_, .error (.inl rfl)⟩
    unfold specialize
    rw [run_get_bind, hproto]
    rfl
  | some proto =>
    rw [run_specialize engine hproto]
    cases hrun : (Compile.specialize engine proto
        (Signature.forPrototype m.shapes proto args upvalues truncate)).run.run m with
    | mk result m' =>
      have hasks : m.Asks engine m' := .intro (h.prototype?_ref hproto) (h.hasCache hproto) hrun
      cases result with
      | error error => exact ⟨_, _, rfl, .error (.inr hasks)⟩
      | ok spec =>
        exact ⟨_, _, rfl, .code hasks ((Machine.serves_of_specialize hrun).1.hasAll h)⟩

/-! ## The linker -/

/-- The plan that the linker makes for a call. -/
def planAt (s : State) (engine : EngineId) (id : SiteId) (args : List Value) : Plan :=
  plan (s.sites.get id).history (s.engine engine).config (s.sites.get id).static
    (args.map (s.typeOf engine))

/-- Why the linker gives up on a callee. -/
inductive Refuses (s : State) (args : List Value) : Value → RuntimeError → Prop
  /-- The callee is no function. -/
  | notCallable {callee : Value} :
    (∀ ref, callee = .function ref → s.heap.function? ref = none) →
    Refuses s args callee (.notCallable callee.kind)
  /-- The prototype of the callee cannot be compiled. -/
  | compilation {ref : FunctionRef} {closure : Closure} {error : CompileError} :
    s.heap.function? ref = some (.closure closure) →
    Refuses s args (.function ref) (.compilation error)
  /-- The callee has more or fewer cells than the code has upvalues. -/
  | binding {ref : FunctionRef} {closure : Closure} {name : String} {expected : Nat} :
    s.heap.function? ref = some (.closure closure) → closure.cells.length ≠ expected →
    Refuses s args (.function ref) (.bindingMismatch name expected closure.cells.length)
  /-- No overload of the callee takes the arguments. -/
  | noOverload {ref : FunctionRef} {overloads : List Overload} {types : List Ty} :
    s.heap.function? ref = some (.host overloads) →
    Overload.selectValues? s.shapes s.heap overloads args = none →
    Refuses s args (.function ref) (.noOverload ref.name types)

/-- What an entry into the linker comes to. -/
inductive Links (m : Machine) (engine : EngineId) (id : SiteId) (callee : Value)
    (args : List Value) : Except Stop Outcome → Machine → Prop
  /-- A link is published under the plan. -/
  | published {m₁ : Machine} {link : Link} : m.MayAsk engine m₁ → link.Housed m₁.sites →
    Links m engine id callee args (.ok (.linked link))
      (published m₁ engine id (planAt m engine id args) link)
  /-- An overload is called once. -/
  | oneShot {ref : FunctionRef} {overload : Nat} {event : Event} :
    Links m engine id callee args (.ok (.oneShot ref overload))
      ((m.modifyEngine engine fun e => e.count Stats.addOneShot).note event)
  /-- The linker gives up. -/
  | refused {m₁ : Machine} {error : RuntimeError} : m.MayAsk engine m₁ →
    Refuses m args callee error → Links m engine id callee args (.error (.error error)) m₁

section

variable {m : Machine} (engine : EngineId) (id : SiteId) (args : List Value)

theorem links_publish {m₁ : Machine} (hasks : m.MayAsk engine m₁) {callee : Value} {link : Link}
    (hlink : link.Housed m₁.sites) : ∃ result m',
      (publish engine id (planAt m engine id args) link).run.run m₁ = (result, m') ∧
        Links m engine id callee args result m' :=
  ⟨_, _, run_publish m₁ engine id _ link, .published hasks hlink⟩

/-- Linking a closure: its code is asked for, bound, and published. -/
theorem links_linkClosure (h : m.Housed) {ref : FunctionRef} {closure : Closure}
    (hclosure : m.heap.function? ref = some (.closure closure)) : ∃ result m',
      (linkClosure engine id (planAt m engine id args) ref closure).run.run m = (result, m') ∧
        Links m engine id (.function ref) args result m' := by
  unfold linkClosure
  rw [run_get_bind]
  dsimp only
  split
  · rw [run_bind]
    obtain ⟨result, m₁, hrun, hobtains⟩ := obtains_specialize h engine closure.proto
      (planAt m engine id args).types (((m.program.prototype? closure.proto).map fun proto =>
        identityUpvalueTypes (m.engine engine).registry m.heap proto closure.cells).getD [])
      (m.sites.get id).truncate
    rw [hrun]
    cases hobtains with
    | error hasks => exact ⟨_, _, rfl, .refused hasks (.compilation hclosure)⟩
    | @code spec _ hasks hsites =>
      dsimp only
      unfold construct
      split
      · refine links_publish engine id args (.inr hasks) ?_
        rintro _ ⟨⟩
        exact hsites
      · next hlength => exact ⟨_, _, rfl, .refused (.inr hasks) (.binding hclosure hlength)⟩
  · rw [run_bind]
    obtain ⟨result, m₁, hrun, hobtains⟩ := obtains_specialize h engine closure.proto
      (planAt m engine id args).types
      (((m.program.prototype? closure.proto).map Prototype.staticUpvalueTypes).getD [])
      (m.sites.get id).truncate
    rw [hrun]
    cases hobtains with
    | error hasks => exact ⟨_, _, rfl, .refused hasks (.compilation hclosure)⟩
    | @code spec _ hasks hsites =>
      refine links_publish engine id args (.inr hasks) ?_
      rintro _ ⟨⟩
      exact hsites

/-- Linking a host function. -/
theorem links_linkHost {ref : FunctionRef} {overloads : List Overload}
    (hhost : m.heap.function? ref = some (.host overloads)) : ∃ result m',
      (linkHost engine id (planAt m engine id args) ref overloads args).run.run m = (result, m') ∧
        Links m engine id (.function ref) args result m' := by
  unfold linkHost
  split
  · exact links_publish engine id args (.inl rfl) (by rintro _ ⟨⟩)
  · rw [run_get_bind]
    split
    · exact ⟨_, _, rfl, .oneShot⟩
    · next hselect => exact ⟨_, _, rfl, .refused (.inl rfl) (.noOverload hhost hselect)⟩

/-- **An entry into the linker** publishes a link, calls an overload once, or gives up. -/
theorem links_link (h : m.Housed) (callee : Value) : ∃ result m',
    (link engine id callee args).run.run m = (result, m') ∧
      Links m engine id callee args result m' := by
  cases callee with
  | function ref =>
    unfold link
    rw [run_get_bind]
    dsimp only
    cases hfunction : m.heap.function? ref with
    | none =>
      refine ⟨_, _, rfl, .refused (.inl rfl) (.notCallable ?_)⟩
      rintro _ ⟨⟩
      exact hfunction
    | some f =>
      cases f with
      | closure closure => exact links_linkClosure engine id args h hfunction
      | host overloads => exact links_linkHost engine id args hfunction
      | foreign action => exact links_publish engine id args (.inl rfl) (by rintro _ ⟨⟩)
  | _ => exact ⟨_, _, rfl, .refused (.inl rfl) (.notCallable (by rintro _ ⟨⟩))⟩

end

/-! ## Housed states stay housed -/

/-- A link that is in place after one was published is an old one or the new one. -/
theorem Sites.link_publish_cases {sites : Sites} {id other : SiteId} {config : Config} {plan : Plan}
    {link link' : Link}
    (h : ((sites.set id ((sites.get id).publish config plan link)).get other).link = some link') :
    (sites.get other).link = some link' ∨ link' = link := by
  rcases get_set_cases sites id ((sites.get id).publish config plan link) other with heq | ⟨-, heq⟩
  · exact .inl (heq ▸ h)
  · refine .inr (Option.some.inj ?_)
    rw [← h]
    exact congrArg Site.link heq

section Published

variable (m : Machine) (engine : EngineId) (id : SiteId) (plan : Plan) (link : Link)

/-- Publishing changes a site, a counter and the journal. -/
theorem published_eq : ∃ journal, published m engine id plan link =
    { m.modifyEngine engine fun e => e.count Stats.addRelink with
      sites := m.sites.set id ((m.sites.get id).publish (m.engine engine).config plan link)
      knowledge := { m.knowledge with journal } } := by
  unfold published
  dsimp only
  obtain ⟨journal, hnotes⟩ := foldl_note _ _
  exact ⟨journal, hnotes⟩

theorem caches_published : (published m engine id plan link).caches = m.caches := by
  obtain ⟨journal, h⟩ := published_eq m engine id plan link
  rw [h]
  rfl

theorem sites_published : (published m engine id plan link).sites =
    m.sites.set id ((m.sites.get id).publish (m.engine engine).config plan link) := by
  obtain ⟨journal, h⟩ := published_eq m engine id plan link
  rw [h]

theorem engines_published : (published m engine id plan link).engines =
    m.engines.modify engine fun e => e.count Stats.addRelink := by
  obtain ⟨journal, h⟩ := published_eq m engine id plan link
  rw [h]
  rfl

theorem memory_published : (published m engine id plan link).demands = m.demands ∧
    (published m engine id plan link).entries = m.entries := by
  obtain ⟨journal, h⟩ := published_eq m engine id plan link
  rw [h]
  exact ⟨rfl, rfl⟩

theorem tallies_published : (published m engine id plan link).tallies =
    m.tallies.modify engine (fun t => (t.1.addRelink, t.2)) := by
  unfold State.tallies
  rw [engines_published]
  exact m.tallies_count engine Stats.addRelink

variable {m link}

theorem housed_published (h : m.Housed) (hlink : link.Housed m.sites) :
    (published m engine id plan link).Housed := by
  obtain ⟨journal, hpublished⟩ := published_eq m engine id plan link
  rw [hpublished]
  have hsize {ids : List SiteId} (hids : m.sites.HasAll ids) : (m.sites.set id
      ((m.sites.get id).publish (m.engine engine).config plan link)).HasAll ids :=
    hids.mono (Nat.le_of_eq (Sites.size_set m.sites id _).symm)
  refine ⟨h.caches, h.ids, fun hat => ?_, fun hat spec hspec => ?_, fun {other link'} hat => ?_⟩
  · show _ < (m.engines.modify engine _).size
    rw [Array.size_modify]
    exact h.closures hat
  · exact hsize (h.specs hat spec hspec)
  · intro spec hspec
    apply hsize
    rcases Sites.link_publish_cases hat with hold | rfl
    · exact h.links hold spec hspec
    · exact hlink spec hspec

end Published

namespace Links

variable {m m' : Machine} {engine : EngineId} {id : SiteId} {callee : Value} {args : List Value}
  {result : Except Stop Outcome}

theorem of_run (hm : m.Housed) (hrun : (link engine id callee args).run.run m = (result, m')) :
    Links m engine id callee args result m' := by
  obtain ⟨_, _, hrun', hlinks⟩ := links_link engine id args hm callee
  rw [hrun] at hrun'
  cases hrun'
  exact hlinks

theorem housed (h : Links m engine id callee args result m') (hm : m.Housed) : m'.Housed := by
  cases h with
  | published hasks hlink => exact housed_published engine id _ (hasks.housed hm) hlink
  | oneShot => exact (Machine.Calm.note _).housed (hm.modifyEngine engine _)
  | refused hasks _ => exact hasks.housed hm

theorem engines_eq (h : Links m engine id callee args result m') :
    m'.engines.size = m.engines.size := by
  cases h with
  | published hasks _ => rw [engines_published, Array.size_modify, hasks.engines_eq]
  | oneShot => exact Array.size_modify
  | refused hasks _ => exact hasks.engines_eq

theorem sites_le (h : Links m engine id callee args result m') :
    m.sites.sites.size ≤ m'.sites.sites.size := by
  cases h with
  | published hasks _ =>
    rw [sites_published, Sites.size_set]
    exact hasks.undisturbed.sites.size_le
  | oneShot => exact Nat.le_refl _
  | refused hasks _ => exact hasks.undisturbed.sites.size_le

/-- The linker leaves it to its caller to remember the entry. -/
theorem entries_eq (h : Links m engine id callee args result m') : m'.entries = m.entries := by
  cases h with
  | published hasks _ => rw [(memory_published _ engine id _ _).2, hasks.entries_eq]
  | oneShot => rfl
  | refused hasks _ => exact hasks.entries_eq

/-- The target that was chosen runs code through sites that exist. -/
theorem hasAll {outcome : Outcome} (h : Links m engine id callee args (.ok outcome) m')
    {spec : Specialization} (hspec : outcome.target.specialization? = some spec) :
    m'.sites.HasAll (Step.allSites spec.body) := by
  cases h with
  | published _ hlink =>
    rw [sites_published]
    exact (hlink spec hspec).mono (Nat.le_of_eq (Sites.size_set _ id _).symm)
  | oneShot => cases hspec

/-- A call enters the linker, and that is remembered. -/
theorem of_enter (hm : m.Housed) {before : Ghost State}
    (hrun : (enter before engine id callee args).run.run m = (result, m')) :
    ∃ m₁ : Machine, Links m engine id callee args result m₁ ∧ m'.toState = m₁.toState ∧
      m'.demands = m₁.demands ∧
      m'.entries.get = m.entries.get ++ [⟨engine, id, callee, args, result, before.get, m'⟩] := by
  obtain ⟨found, m₁, hlink, hlinks⟩ := links_link engine id args hm callee
  unfold enter at hrun
  rw [run_remembering, hlink] at hrun
  cases hrun
  refine ⟨m₁, hlinks, rfl, rfl, ?_⟩
  rw [Machine.recordEntry, Ghost.get_map₂, hlinks.entries_eq]

end Links
end Linking
end AdaptiveScript
