import AdaptiveScript.Proofs.Machine.Compilation
import AdaptiveScript.Proofs.Machine.Housing

/-!
# Requests for specializations

A request finds the specialization in the cache of the prototype, or it starts a compilation.
`Compile.Serves` says what either comes to, for all requests, whatever the state and the
prototype are like.  A specialization that is found leaves the state as it is.  A compilation
is counted twice, by the cache and by the engine; only one that succeeds adds to the cache and is
counted as loaded.  And whatever the outcome, the program, the shared objects and the call sites
that there are stay as they were (`State.Undisturbed`).  A request that was served is
remembered, and nothing else is (`Machine.Asks`).
-/

namespace AdaptiveScript

/-- A cache in which one more compilation was started. -/
def Cache.begun (c : Cache) : Cache :=
  { c with compileCount := c.compileCount + 1 }

namespace State

/-- What compiling leaves as it is. -/
structure Undisturbed (before after : State) : Prop where
  program : after.program = before.program
  heap : after.heap = before.heap
  sites : before.sites.Adds after.sites
  config : ∀ id, (after.engine id).config = (before.engine id).config

namespace Undisturbed

variable {m : Machine}

theorem trans {a b c : State} (hab : a.Undisturbed b) (hbc : b.Undisturbed c) :
    a.Undisturbed c :=
  ⟨hbc.program.trans hab.program, hbc.heap.trans hab.heap, Appends.trans hab.sites hbc.sites,
    fun id => (hbc.config id).trans (hab.config id)⟩

theorem refl (s : State) : s.Undisturbed s :=
  ⟨rfl, rfl, .refl _, fun _ => rfl⟩

theorem modifyCache (ref : PrototypeRef) (f : Cache → Cache) : m.Undisturbed (m.modifyCache ref f) :=
  ⟨rfl, rfl, .refl _, fun _ => rfl⟩

theorem note (event : Event) : m.Undisturbed (m.note event) :=
  ⟨rfl, rfl, .refl _, fun _ => rfl⟩

theorem modifyEngine (id : EngineId) {f : Engine → Engine} (h : ∀ e, (f e).config = e.config) :
    m.Undisturbed (m.modifyEngine id f) :=
  ⟨rfl, rfl, .refl _, Machine.config_modifyEngine m id h⟩

end Undisturbed
end State

namespace Machine

theorem toList_caches_modifyCache (m : Machine) (ref : PrototypeRef) (f : Cache → Cache) :
    (m.modifyCache ref f).caches.toList = m.caches.toList.modify (ref.id - 1) f :=
  Array.toList_modify

end Machine

namespace Compile

variable {m : Machine}

/-! ## Compiling -/

/-- What compiling does, caches and counters apart from what it loads. -/
inductive Produces (m : Machine) (engine : EngineId) (signature : Signature) :
    Except CompileError Specialization → Machine → Prop
  /-- There is code, and it was made ready to run. -/
  | code {spec : Specialization} {m' : Machine} : spec.signature = signature →
    m'.sites.HasAll (Step.allSites spec.body) → m.Undisturbed m' →
    m'.caches = m.caches → m'.tallies = m.tallies.modify engine (fun t => (t.1, t.2 + 1)) →
    Produces m engine signature (.ok spec) m'
  /-- The body cannot be compiled. -/
  | error {error : CompileError} {m' : Machine} : m.Undisturbed m' → m'.caches = m.caches →
    m'.tallies = m.tallies → Produces m engine signature (.error error) m'

/-- The machine after code was emitted in one of its engines. -/
def emitted (m : Machine) (engine : EngineId) (s : Emitter) : Machine :=
  { m.modifyEngine engine fun e => { e with registry := s.registry } with
    knowledge := s.knowledge
    sites := s.sites }

theorem undisturbed_emitted (engine : EngineId) {s : Emitter} (h : m.sites.Adds s.sites) :
    m.Undisturbed (emitted m engine s) :=
  ⟨rfl, rfl, h, Machine.config_modifyEngine m engine
    (f := fun e => { e with registry := s.registry }) fun _ => rfl⟩

theorem tallies_emitted (engine : EngineId) (s : Emitter) :
    (emitted m engine s).tallies = m.tallies :=
  m.tallies_modifyEngine_same engine (f := fun e => { e with registry := s.registry }) fun _ => rfl

theorem produces_compile (m : Machine) (engine : EngineId) (proto : Prototype)
    (signature : Signature) : ∃ result m', (compile engine proto signature).run.run m = (result, m') ∧
      Produces m engine signature result m' := by
  have hbody := Emit.makes_body (s := start m engine) m.program proto signature
    (m.engine engine).config.maxInferenceIterations
  unfold compile
  rw [run_get_bind]
  dsimp only
  rw [run_bind, run_emit]
  generalize body m.program proto signature (m.engine engine).config.maxInferenceIterations = e
    at hbody
  have hadds := hbody.evolves
  have hpost := fun {a} => hbody.post (a := a)
  generalize e.run.run (start m engine) = r at hadds hpost
  obtain ⟨result, s⟩ := r
  have hquiet := undisturbed_emitted engine hadds
  cases result with
  | error error => exact ⟨_, _, rfl, .error hquiet rfl (tallies_emitted engine s)⟩
  | ok found =>
    obtain ⟨types, steps⟩ := found
    refine ⟨_, _, rfl, .code rfl (hpost rfl) ?_ rfl ?_⟩
    · show m.Undisturbed (((emitted m engine s).modifyEngine engine fun e =>
        { e with loaded := e.loaded + 1 }).note _)
      refine .trans ?_ (.note _)
      exact hquiet.trans (.modifyEngine engine fun _ => rfl)
    · show ((emitted m engine s).modifyEngine engine _).tallies = _
      rw [Machine.tallies_modifyEngine _ engine (g := fun t => (t.1, t.2 + 1)) fun _ => rfl,
        tallies_emitted]

/-! ## Requests -/

/-- What a request for a specialization comes to. -/
inductive Serves (s : State) (engine : EngineId) (proto : Prototype) (signature : Signature) :
    Except CompileError Specialization → State → Prop
  /-- It was compiled before. -/
  | found {spec : Specialization} : (s.cache proto.ref).lookup? signature = some spec →
    Serves s engine proto signature (.ok spec) s
  /-- It is compiled now. -/
  | compiled {spec : Specialization} {s' : State} :
    (s.cache proto.ref).lookup? signature = none → spec.signature = signature →
    s'.sites.HasAll (Step.allSites spec.body) → s.Undisturbed s' →
    s'.caches.toList = s.caches.toList.modify (proto.ref.id - 1) (fun c => c.begun.insert spec) →
    s'.tallies = s.tallies.modify engine (fun t => (t.1.addCompilation, t.2 + 1)) →
    Serves s engine proto signature (.ok spec) s'
  /-- It cannot be compiled. -/
  | failed {error : CompileError} {s' : State} :
    (s.cache proto.ref).lookup? signature = none → s.Undisturbed s' →
    s'.caches.toList = s.caches.toList.modify (proto.ref.id - 1) Cache.begun →
    s'.tallies = s.tallies.modify engine (fun t => (t.1.addCompilation, t.2)) →
    Serves s engine proto signature (.error error) s'

/-- A machine in which a compilation was started. -/
def begun (m : Machine) (engine : EngineId) (proto : Prototype) (signature : Signature) : Machine :=
  ((m.modifyCache proto.ref Cache.begun).modifyEngine engine fun e =>
    e.count Stats.addCompilation).note (.specializing proto.ref.name signature)

theorem undisturbed_begun (engine : EngineId) (proto : Prototype) (signature : Signature) :
    m.Undisturbed (begun m engine proto signature) := by
  unfold begun
  refine .trans ?_ (.note _)
  exact .trans (.modifyCache proto.ref Cache.begun) (.modifyEngine engine fun _ => rfl)

theorem tallies_begun (m : Machine) (engine : EngineId) (proto : Prototype) (signature : Signature) :
    (begun m engine proto signature).tallies =
      m.tallies.modify engine (fun t => (t.1.addCompilation, t.2)) :=
  (m.modifyCache proto.ref Cache.begun).tallies_modifyEngine engine fun _ => rfl

theorem run_serve_of_none {engine : EngineId} {proto : Prototype} {signature : Signature}
    (h : (m.cache proto.ref).lookup? signature = none) :
    (serve engine proto signature).run.run m =
      match (compile engine proto signature).run.run (begun m engine proto signature) with
      | (.ok spec, m') => (.ok spec, m'.modifyCache proto.ref fun c => c.insert spec)
      | (.error error, m') => (.error error, m') := by
  unfold serve
  rw [run_get_bind, h]
  show (compile engine proto signature >>= fun spec => _).run.run (begun m engine proto signature) = _
  rw [run_bind]
  generalize (compile engine proto signature).run.run (begun m engine proto signature) = r
  obtain ⟨result, m'⟩ := r
  cases result <;> rfl

theorem run_serve_of_some {engine : EngineId} {proto : Prototype} {signature : Signature}
    {spec : Specialization} (h : (m.cache proto.ref).lookup? signature = some spec) :
    (serve engine proto signature).run.run m = (.ok spec, m) := by
  unfold serve
  rw [run_get_bind, h]
  rfl

/-- **Requests** are served from the cache, by a compilation, or by the error of one. -/
theorem serves_serve (m : Machine) (engine : EngineId) (proto : Prototype)
    (signature : Signature) : ∃ result m',
      (serve engine proto signature).run.run m = (result, m') ∧
        Serves m engine proto signature result m' := by
  cases hlookup : (m.cache proto.ref).lookup? signature with
  | some spec => exact ⟨_, _, run_serve_of_some hlookup, .found hlookup⟩
  | none =>
    obtain ⟨result, m', hrun, hproduces⟩ :=
      produces_compile (begun m engine proto signature) engine proto signature
    have hbegun := undisturbed_begun (m := m) engine proto signature
    have hcaches := m.toList_caches_modifyCache proto.ref Cache.begun
    rw [run_serve_of_none hlookup, hrun]
    cases hproduces with
    | error hquiet hsame htallies =>
      refine ⟨_, _, rfl, .failed hlookup (hbegun.trans hquiet) ?_ ?_⟩
      · rw [hsame]
        exact hcaches
      · rw [htallies, tallies_begun]
    | code hsignature hsites hquiet hsame htallies =>
      refine ⟨_, _, rfl, .compiled hlookup hsignature hsites
        ((hbegun.trans hquiet).trans (.modifyCache _ _)) ?_ ?_⟩
      · rw [Machine.toList_caches_modifyCache, hsame, show (begun m engine proto signature).caches.toList =
          m.caches.toList.modify (proto.ref.id - 1) Cache.begun from hcaches, List.modify_modify_eq]
        rfl
      · show m'.tallies = _
        rw [htallies, tallies_begun, List.modify_modify_eq]
        rfl

/-! ## What is remembered -/

theorem memory_compile (m : Machine) (engine : EngineId) (proto : Prototype)
    (signature : Signature) :
    ((compile engine proto signature).run.run m).2.demands = m.demands ∧
      ((compile engine proto signature).run.run m).2.entries = m.entries := by
  unfold compile
  rw [run_get_bind]
  dsimp only
  rw [run_bind, run_emit]
  generalize (body m.program proto signature
    (m.engine engine).config.maxInferenceIterations).run.run (start m engine) = r
  obtain ⟨result, s⟩ := r
  cases result <;> exact ⟨rfl, rfl⟩

/-- While a request is served nothing is remembered. -/
theorem memory_serve (m : Machine) (engine : EngineId) (proto : Prototype)
    (signature : Signature) :
    ((serve engine proto signature).run.run m).2.demands = m.demands ∧
      ((serve engine proto signature).run.run m).2.entries = m.entries := by
  cases hlookup : (m.cache proto.ref).lookup? signature with
  | some spec =>
    rw [run_serve_of_some hlookup]
    exact ⟨rfl, rfl⟩
  | none =>
    have hcompile := memory_compile (begun m engine proto signature) engine proto signature
    rw [run_serve_of_none hlookup]
    generalize (compile engine proto signature).run.run (begun m engine proto signature) = r
      at hcompile
    obtain ⟨result, m'⟩ := r
    cases result <;> exact hcompile

/-! ## Housed states stay housed -/

/-- A cache after one was changed. -/
theorem getElem?_caches {s s' : State} {place : Nat} {f : Cache → Cache}
    (h : s'.caches.toList = s.caches.toList.modify place f) (index : Nat) :
    s'.caches[index]? = if place = index then s.caches[index]?.map f else s.caches[index]? := by
  rw [← Array.getElem?_toList, h, List.getElem?_modify, Array.getElem?_toList]
  split
  · rfl
  · cases s.caches[index]? <;> rfl

/-- A change of one cache that adds only code through sites that exist. -/
theorem housed_of_undisturbed {s s' : State} (hquiet : s.Undisturbed s') {place : Nat}
    {f : Cache → Cache} (hcaches : s'.caches.toList = s.caches.toList.modify place f)
    (hengines : s'.engines.size = s.engines.size)
    (hf : ∀ c, ∀ spec ∈ (f c).entries, spec ∈ c.entries ∨
      s'.sites.HasAll (Step.allSites spec.body)) (h : s.Housed) : s'.Housed := by
  have hle := hquiet.sites.size_le
  refine ⟨?_, fun hat => ?_, fun hat => ?_, fun {index cache} hat spec hspec => ?_,
    fun hat spec hspec => ?_⟩
  · have hsize := congrArg List.length hcaches
    rw [List.length_modify, Array.length_toList, Array.length_toList] at hsize
    rw [hsize, hquiet.program, h.caches]
  · rw [hquiet.program] at hat
    exact h.ids hat
  · rw [hquiet.heap] at hat
    rw [hengines]
    exact h.closures hat
  · rw [getElem?_caches hcaches] at hat
    split at hat
    · obtain ⟨c, hc, rfl⟩ := Option.map_eq_some_iff.mp hat
      rcases hf c spec hspec with hold | hnew
      · exact (h.specs hc spec hold).mono hle
      · exact hnew
    · exact (h.specs hat spec hspec).mono hle
  · exact (h.links (hquiet.sites.link_eq hat) spec hspec).mono hle

theorem engines_eq_of_tallies {s s' : State} {engine : EngineId}
    {g : Stats × Nat → Stats × Nat} (h : s'.tallies = s.tallies.modify engine g) :
    s'.engines.size = s.engines.size := by
  rw [← State.length_tallies, h, List.length_modify, State.length_tallies]

namespace Serves

variable {s s' : State} {engine : EngineId} {proto : Prototype} {signature : Signature}
  {result : Except CompileError Specialization}

theorem undisturbed (h : Serves s engine proto signature result s') : s.Undisturbed s' := by
  cases h with
  | found => exact .refl s
  | compiled _ _ _ hquiet _ _ => exact hquiet
  | failed _ hquiet _ _ => exact hquiet

theorem engines_eq (h : Serves s engine proto signature result s') :
    s'.engines.size = s.engines.size := by
  cases h with
  | found => rfl
  | compiled _ _ _ _ _ htallies => exact engines_eq_of_tallies htallies
  | failed _ _ _ htallies => exact engines_eq_of_tallies htallies

theorem housed (h : Serves s engine proto signature result s') (hm : s.Housed) : s'.Housed := by
  have hengines := h.engines_eq
  cases h with
  | found => exact hm
  | compiled _ _ hsites hquiet hcaches _ =>
    refine housed_of_undisturbed hquiet hcaches hengines (fun c other hother => ?_) hm
    rcases List.mem_cons.mp hother with rfl | hold
    · exact .inr hsites
    · exact .inl hold
  | failed _ hquiet hcaches _ =>
    exact housed_of_undisturbed hquiet hcaches hengines (fun _ _ hold => .inl hold) hm

/-- The code that is given goes through sites that exist. -/
theorem hasAll {spec : Specialization} (h : Serves s engine proto signature (.ok spec) s')
    (hs : s.Housed) : s'.sites.HasAll (Step.allSites spec.body) := by
  cases h with
  | found hlookup =>
    have hmem : spec ∈ (s.cache proto.ref).entries := List.mem_of_find?_eq_some hlookup
    simp only [State.cache, Array.getD_eq_getD_getElem?] at hmem
    cases hat : s.caches[proto.ref.id - 1]? with
    | none =>
      rw [hat] at hmem
      cases hmem
    | some cache =>
      rw [hat] at hmem
      exact hs.specs hat spec hmem
  | compiled _ _ hsites _ _ _ => exact hsites

end Serves
end Compile

namespace Machine

/-- A specialization of a prototype of the program is asked for in an engine. -/
inductive Asks (m : Machine) (engine : EngineId) (m' : Machine) : Prop
  | intro {proto : Prototype} {signature : Signature}
    {result : Except CompileError Specialization} :
    m.program.prototype? proto.ref = some proto → m.HasCache proto.ref →
    (Compile.specialize engine proto signature).run.run m = (result, m') → Asks m engine m'

/-- At most one specialization is asked for. -/
def MayAsk (m : Machine) (engine : EngineId) (m' : Machine) : Prop :=
  m' = m ∨ m.Asks engine m'

/-- A request is served, and then it is remembered. -/
theorem serves_of_specialize {m m' : Machine} {engine : EngineId} {proto : Prototype}
    {signature : Signature} {result : Except CompileError Specialization}
    (hrun : (Compile.specialize engine proto signature).run.run m = (result, m')) :
    Compile.Serves m engine proto signature result m' ∧ m'.entries = m.entries ∧
      m'.demands.get = m.demands.get ++ [⟨engine, proto.ref, signature, result, m, m'⟩] := by
  obtain ⟨served, m₁, hserve, hserves⟩ := Compile.serves_serve m engine proto signature
  have hmemory := Compile.memory_serve m engine proto signature
  rw [Compile.run_specialize, hserve] at hrun
  rw [hserve] at hmemory
  cases hrun
  refine ⟨hserves, hmemory.2, ?_⟩
  rw [recordDemand, Ghost.get_map₂, hmemory.1, Ghost.get_of]

namespace Asks

variable {m m' : Machine} {engine : EngineId}

theorem serves (h : m.Asks engine m') :
    ∃ proto signature result, Compile.Serves m engine proto signature result m' := by
  cases h with
  | intro _ _ hrun => exact ⟨_, _, _, (serves_of_specialize hrun).1⟩

theorem housed (h : m.Asks engine m') (hm : m.Housed) : m'.Housed := by
  obtain ⟨_, _, _, hserves⟩ := h.serves
  exact hserves.housed hm

theorem undisturbed (h : m.Asks engine m') : m.Undisturbed m' := by
  obtain ⟨_, _, _, hserves⟩ := h.serves
  exact hserves.undisturbed

theorem engines_eq (h : m.Asks engine m') : m'.engines.size = m.engines.size := by
  obtain ⟨_, _, _, hserves⟩ := h.serves
  exact hserves.engines_eq

theorem entries_eq (h : m.Asks engine m') : m'.entries = m.entries := by
  cases h with
  | intro _ _ hrun => exact (serves_of_specialize hrun).2.1

end Asks

namespace MayAsk

variable {m m' : Machine} {engine : EngineId}

theorem housed (h : m.MayAsk engine m') (hm : m.Housed) : m'.Housed := by
  rcases h with rfl | h
  · exact hm
  · exact h.housed hm

theorem undisturbed (h : m.MayAsk engine m') : m.Undisturbed m' := by
  rcases h with rfl | h
  · exact .refl _
  · exact h.undisturbed

theorem engines_eq (h : m.MayAsk engine m') : m'.engines.size = m.engines.size := by
  rcases h with rfl | h
  · rfl
  · exact h.engines_eq

theorem entries_eq (h : m.MayAsk engine m') : m'.entries = m.entries := by
  rcases h with rfl | h
  · rfl
  · exact h.entries_eq

end MayAsk
end Machine
end AdaptiveScript
