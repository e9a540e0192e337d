import AdaptiveScript.Proofs.Emission.Sites

/-!
# Everything has its place

Counting is right only if what is counted has a place where the count is kept: a compilation has
a cache and an engine, a link has a site and an engine.  In a housed state (`State.Housed`)
this is so for everything that can come up in a run.  Every prototype has a cache, every closure
an engine, and all code goes through sites that exist.

Most of what happens to a machine compiles nothing and links nothing.  Such a change is calm
(`Machine.Calm`): it may make caches, engines and sites, but nothing that was counted changes, and
neither does what is remembered of requests and of calls that entered the linker.
-/

namespace AdaptiveScript

/-- What an engine has counted: its counters, and the routines made ready to run. -/
def Engine.tally (e : Engine) : Stats × Nat :=
  (e.stats, e.loaded)

namespace Linking

/-- The code that a link runs goes through sites that exist. -/
def Link.Housed (sites : Sites) (link : Link) : Prop :=
  ∀ spec, link.target.specialization? = some spec → sites.HasAll (Step.allSites spec.body)

theorem Sites.Adds.link_eq {before after : Sites} (h : before.Adds after) {id : SiteId}
    {link : Link} (hlink : (after.get id).link = some link) : (before.get id).link = some link := by
  rw [← hlink]
  exact (h.read_eq Site.link (fun _ _ => rfl) id).symm

end Linking

namespace State

/-- What the engines have counted, in their order. -/
def tallies (s : State) : List (Stats × Nat) :=
  s.engines.toList.map Engine.tally

theorem length_tallies (s : State) : s.tallies.length = s.engines.size := by
  simp [tallies]

/-- An engine that there is not has counted nothing. -/
theorem stats_engine (s : State) (id : EngineId) :
    (s.engine id).stats = (s.tallies[id]?.map Prod.fst).getD .zero := by
  simp only [engine, tallies, Array.getD_eq_getD_getElem?, List.getElem?_map, Array.getElem?_toList]
  cases s.engines[id]? <;> rfl

/-! ## Housed states -/

/-- Prototypes have caches, closures have engines, and code goes through sites that exist. -/
structure Housed (s : State) : Prop where
  caches : s.caches.size = s.program.prototypes.size
  ids : ∀ {index : Nat} {proto : Prototype}, s.program.prototypes[index]? = some proto →
    proto.ref.id = index + 1
  closures : ∀ {ref : FunctionRef} {c : Closure}, s.heap.function? ref = some (.closure c) →
    c.engine < s.engines.size
  specs : ∀ {index : Nat} {cache : Cache}, s.caches[index]? = some cache →
    ∀ spec ∈ cache.entries, s.sites.HasAll (Step.allSites spec.body)
  links : ∀ {id : SiteId} {link : Linking.Link}, (s.sites.get id).link = some link →
    link.Housed s.sites

/-- A prototype has a cache. -/
def HasCache (s : State) (ref : PrototypeRef) : Prop :=
  0 < ref.id ∧ ref.id ≤ s.caches.size

/-- A prototype that is found has a cache. -/
theorem Housed.hasCache {s : State} (h : s.Housed) {ref : PrototypeRef} {proto : Prototype}
    (hproto : s.program.prototype? ref = some proto) : s.HasCache proto.ref := by
  unfold Program.prototype? at hproto
  split at hproto
  · cases hproto
  · next index _ =>
    have hlt : index < s.program.prototypes.size := (Array.getElem?_eq_some_iff.mp hproto).1
    rw [HasCache, h.ids hproto, h.caches]
    omega

/-- A prototype that is found is found by its own reference. -/
theorem Housed.prototype?_ref {s : State} (h : s.Housed) {ref : PrototypeRef}
    {proto : Prototype} (hproto : s.program.prototype? ref = some proto) :
    s.program.prototype? proto.ref = some proto := by
  have hid : proto.ref.id = ref.id := by
    unfold Program.prototype? at hproto
    split at hproto
    · cases hproto
    · next index heq => rw [h.ids hproto, heq]
  rw [← hproto, Program.prototype?, Program.prototype?, hid]

theorem Housed.modifyEngine {m : Machine} (h : m.Housed) (id : EngineId) (f : Engine → Engine) :
    (m.modifyEngine id f).Housed := by
  refine ⟨h.caches, h.ids, fun hat => ?_, h.specs, h.links⟩
  show _ < (m.engines.modify id f).size
  rw [Array.size_modify]
  exact h.closures hat

end State

namespace Machine

/-- A change of one engine, as far as counting goes. -/
theorem tallies_modifyEngine (m : Machine) (id : EngineId) {f : Engine → Engine}
    {g : Stats × Nat → Stats × Nat} (h : ∀ e, (f e).tally = g e.tally) :
    (m.modifyEngine id f).tallies = m.tallies.modify id g := by
  unfold State.tallies
  rw [← map_modify h, ← Array.toList_modify]
  rfl

/-- An engine counts something. -/
theorem tallies_count (m : Machine) (id : EngineId) (f : Stats → Stats) :
    (m.modifyEngine id fun e => e.count f).tallies = m.tallies.modify id fun t => (f t.1, t.2) :=
  m.tallies_modifyEngine id fun _ => rfl

/-- Changes of an engine that count nothing. -/
theorem tallies_modifyEngine_same (m : Machine) (id : EngineId) {f : Engine → Engine}
    (h : ∀ e, (f e).tally = e.tally) : (m.modifyEngine id f).tallies = m.tallies := by
  rw [tallies_modifyEngine m id (g := fun t => t) h]
  exact List.modify_id _ _

theorem housed_empty : empty.Housed where
  caches := rfl
  ids h := by simp [empty, State.empty] at h
  closures h := by simp [empty, State.empty, Heap.empty, Heap.function?] at h
  specs h := by simp [empty, State.empty] at h
  links {id} _ h := by
    cases id with
    | zero => cases h
    | succ index => cases h

/-! ## Calm changes -/

/-- Caches, engines and sites are made, and nothing that was counted changes. -/
structure Calm (before after : Machine) : Prop where
  caches : Appends (· = .empty) before.caches.toList after.caches.toList
  tallies : Appends (· = (.zero, 0)) before.tallies after.tallies
  sites : before.sites.Adds after.sites
  demands : after.demands = before.demands
  entries : after.entries = before.entries
  housed : before.Housed → after.Housed

namespace Calm

variable {m m' : Machine}

theorem refl (m : Machine) : m.Calm m :=
  ⟨.refl _, .refl _, .refl _, rfl, rfl, id⟩

theorem engines_le (h : m.Calm m') : m.engines.size ≤ m'.engines.size := by
  simpa only [State.length_tallies] using h.tallies.length_le

/-- Changes of what neither counts nor is counted. -/
theorem of_same (hprogram : m'.program = m.program) (hcaches : m'.caches = m.caches)
    (hsites : m'.sites = m.sites) (htallies : m'.tallies = m.tallies)
    (hfunctions : m'.heap.functions = m.heap.functions) (hdemands : m'.demands = m.demands)
    (hentries : m'.entries = m.entries) : m.Calm m' where
  caches := .of_eq (by rw [hcaches])
  tallies := .of_eq htallies
  sites := .of_eq (by rw [hsites])
  demands := hdemands
  entries := hentries
  housed h := by
    have hengines : m'.engines.size = m.engines.size := by
      rw [← State.length_tallies, htallies, State.length_tallies]
    refine ⟨?_, fun hat => ?_, fun hat => ?_, fun hat => ?_, fun hat => ?_⟩
    · rw [hcaches, hprogram, h.caches]
    · rw [hprogram] at hat
      exact h.ids hat
    · rw [hengines]
      rw [Heap.function?, hfunctions] at hat
      exact h.closures hat
    · rw [hcaches] at hat
      rw [hsites]
      exact h.specs hat
    · rw [hsites] at hat ⊢
      exact h.links hat

theorem setHeap {heap : Heap} (h : heap.functions = m.heap.functions) : m.Calm (m.setHeap heap) :=
  of_same rfl rfl rfl rfl h rfl rfl

theorem observe (type : Ty) (v : Value) : m.Calm (m.observe type v) :=
  of_same rfl rfl rfl rfl rfl rfl rfl

theorem recordCall (engine : EngineId) (id : SiteId) (callee : Value) (args : List Value) :
    m.Calm (m.recordCall engine id callee args) :=
  of_same rfl rfl rfl rfl rfl rfl rfl

theorem note (event : Event) : m.Calm (m.note event) :=
  of_same rfl rfl rfl rfl rfl rfl rfl

theorem setKnowledge (k : Knowledge) : m.Calm { m with knowledge := k } :=
  of_same rfl rfl rfl rfl rfl rfl rfl

theorem modifyEngine (id : EngineId) {f : Engine → Engine} (h : ∀ e, (f e).tally = e.tally) :
    m.Calm (m.modifyEngine id f) :=
  of_same rfl rfl rfl (tallies_modifyEngine_same m id h) rfl rfl rfl

/-- A function is made; a closure belongs to an engine that exists. -/
theorem addFunction (name : String) {f : FunctionObject}
    (h : ∀ c, f = .closure c → c.engine < m.engines.size) : m.Calm (m.addFunction name f).2 where
  caches := .refl _
  tallies := .refl _
  sites := .refl _
  demands := rfl
  entries := rfl
  housed hm := by
    refine ⟨hm.caches, hm.ids, fun {ref c} hat => ?_, hm.specs, hm.links⟩
    change (m.heap.functions.push f)[ref.id]? = _ at hat
    rw [Array.getElem?_push] at hat
    split at hat
    · exact h c (Option.some.inj hat)
    · exact hm.closures hat

/-- A site is made. -/
theorem addSite (static : List Ty) (truncate : Bool) :
    m.Calm { m with sites := (m.sites.add (.fresh static truncate)).2 } := by
  have hadds := Linking.Sites.adds_add m.sites static truncate
  refine ⟨.refl _, .refl _, hadds, rfl, rfl, fun hm => ?_⟩
  refine ⟨hm.caches, hm.ids, hm.closures, fun hat spec hspec => ?_, fun hat spec hspec => ?_⟩
  · exact (hm.specs hat spec hspec).mono hadds.size_le
  · exact (hm.links (hadds.link_eq hat) spec hspec).mono hadds.size_le

/-- An engine is made. -/
theorem addEngine (config : Config) : m.Calm (m.addEngine config).2 := by
  refine ⟨.refl _, ?_, .refl _, rfl, rfl, fun hm => ?_⟩
  · have hpush : (m.addEngine config).2.tallies = m.tallies ++ [(.zero, 0)] := by
      simp [State.tallies, Machine.addEngine, Machine.note, Engine.tally, Engine.ofConfig]
    rw [hpush]
    exact .concat _ rfl
  · refine ⟨hm.caches, hm.ids, fun {ref c} hat => ?_, hm.specs, hm.links⟩
    have hlt := hm.closures hat
    show c.engine < (m.engines.push (.ofConfig config)).size
    rw [Array.size_push]
    exact Nat.lt_succ_of_lt hlt

/-- A prototype is added, and has a cache from then on. -/
theorem addPrototype (name : String) (params locals : List String)
    (upvalues : List UpvalueTemplate) (body : List Stmt) :
    m.Calm (m.addPrototype name params locals upvalues body).2 := by
  refine ⟨?_, .refl _, .refl _, rfl, rfl, fun hm => ?_⟩
  · show Appends _ m.caches.toList (m.caches.push .empty).toList
    rw [Array.toList_push]
    exact .concat _ rfl
  · refine ⟨?_, fun {index proto} hat => ?_, hm.closures, fun {index cache} hat spec hspec => ?_,
      hm.links⟩
    · show (m.caches.push .empty).size = (m.program.prototypes.push _).size
      rw [Array.size_push, Array.size_push, hm.caches]
    · change (m.program.prototypes.push _)[index]? = some proto at hat
      rw [Array.getElem?_push] at hat
      split at hat
      · next hindex =>
        cases hat
        rw [hindex]
        rfl
      · exact hm.ids hat
    · change (m.caches.push .empty)[index]? = some cache at hat
      rw [Array.getElem?_push] at hat
      split at hat
      · cases hat
        cases hspec
      · exact hm.specs hat spec hspec

end Calm
end Machine
end AdaptiveScript
