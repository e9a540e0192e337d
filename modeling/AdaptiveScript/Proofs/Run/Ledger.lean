import AdaptiveScript.Proofs.Run.Deeds

/-!
# One compilation per signature

Everything that needs a specialization asks the cache of a prototype for it: a host, a call
through an engine, a call through a site, at any depth.  A machine remembers all these requests
(`Machine.demands`), each with what it came to and with the states before and after it.

`OneCompilation` says what the caches hold after some requests and what was counted on the way,
and `Demand.Follows` what a request comes to after some others.  The proof goes by chronicles
(`Demands`), whose events are requests; all else leaves the caches and the counters of compiling
as they are (`State.Spares`).  What is said is kept by both (`OneCompilation.spare`,
`OneCompilation.demand`), so it is right after all that a host can do, and it was right before
and after each request on the way.
-/

namespace AdaptiveScript

/-! ## Caches -/

namespace Cache

theorem lookup?_eq_none_iff {c : Cache} {signature : Signature} :
    c.lookup? signature = none ↔ signature ∉ c.signatures := by
  simp [lookup?, signatures]

theorem mem_signatures_of_lookup? {c : Cache} {signature : Signature} {spec : Specialization}
    (h : c.lookup? signature = some spec) : signature ∈ c.signatures := by
  by_contra hnot
  rw [lookup?_eq_none_iff.mpr hnot] at h
  cases h

@[simp] theorem size_begun (c : Cache) : c.begun.size = c.size := rfl

@[simp] theorem compileCount_begun (c : Cache) : c.begun.compileCount = c.compileCount + 1 := rfl

@[simp] theorem compileCount_insert (c : Cache) (spec : Specialization) :
    (c.insert spec).compileCount = c.compileCount := rfl

end Cache

namespace State

variable {s s' : State}

/-- The cache of a prototype after it was changed. -/
theorem cache_of_modify {ref : PrototypeRef} {f : Cache → Cache}
    (h : s'.caches.toList = s.caches.toList.modify (ref.id - 1) f) (hcache : s.HasCache ref) :
    s'.cache ref = f (s.cache ref) := by
  have hlt : ref.id - 1 < s.caches.size := by
    obtain ⟨hpos, hle⟩ := hcache
    omega
  simp only [cache, Array.getD_eq_getD_getElem?, Compile.getElem?_caches h, if_pos]
  rw [Array.getElem?_eq_getElem hlt]
  rfl

/-- The cache of another prototype. -/
theorem cache_of_modify_ne {ref other : PrototypeRef} {f : Cache → Cache}
    (h : s'.caches.toList = s.caches.toList.modify (ref.id - 1) f) (hcache : s.HasCache ref)
    (hother : 0 < other.id) (hne : ref.id ≠ other.id) : s'.cache other = s.cache other := by
  have hindex : ref.id - 1 ≠ other.id - 1 := by
    obtain ⟨hpos, -⟩ := hcache
    omega
  simp only [cache, Array.getD_eq_getD_getElem?, Compile.getElem?_caches h, if_neg hindex]

theorem cache_congr {ref other : PrototypeRef} (h : ref.id = other.id) :
    s.cache ref = s.cache other := by
  rw [cache, cache, h]

/-- What is counted by engines is counted by their tallies. -/
theorem total_engines (s : State) (f : Stats × Nat → Nat) :
    total (fun e => f e.tally) s.engines.toList = total f s.tallies :=
  (total_map f Engine.tally _).symm

theorem total_compilations (s : State) : total (fun e => e.stats.compilations) s.engines.toList =
    total (fun t => t.1.compilations) s.tallies :=
  s.total_engines fun t => t.1.compilations

theorem total_loaded (s : State) : total Engine.loaded s.engines.toList =
    total Prod.snd s.tallies :=
  s.total_engines Prod.snd

/-! ## What compiles nothing -/

/-- What an engine has counted of compiling: compilations, and routines made ready to run. -/
def compiling (t : Stats × Nat) : Nat × Nat :=
  (t.1.compilations, t.2)

/-- Caches and engines may be made, but no cache and no counter of compiling changes. -/
structure Spares (before after : State) : Prop where
  caches : Appends (· = .empty) before.caches.toList after.caches.toList
  counters : Appends (· = (0, 0)) (before.tallies.map compiling) (after.tallies.map compiling)

namespace Spares

theorem refl (s : State) : s.Spares s :=
  ⟨.refl _, .refl _⟩

theorem trans {a b c : State} (hab : a.Spares b) (hbc : b.Spares c) : a.Spares c :=
  ⟨hab.caches.trans hbc.caches, hab.counters.trans hbc.counters⟩

theorem cache_eq (h : s.Spares s') (ref : PrototypeRef) : s'.cache ref = s.cache ref := by
  simp only [cache, Array.getD_eq_getD_getElem?, ← Array.getElem?_toList]
  exact h.caches.getD_eq _

theorem total_caches (h : s.Spares s') {f : Cache → Nat} (hf : f .empty = 0) :
    total f s'.caches.toList = total f s.caches.toList := by
  refine h.caches.total_eq ?_
  rintro _ rfl
  exact hf

theorem total_engines (h : s.Spares s') {f : Nat × Nat → Nat} (hf : f (0, 0) = 0) :
    total (fun e => f (compiling e.tally)) s'.engines.toList =
      total (fun e => f (compiling e.tally)) s.engines.toList := by
  have hsame := h.counters.total_eq (f := f) (by rintro _ rfl; exact hf)
  rw [total_map, total_map] at hsame
  rw [State.total_engines s' (fun t => f (compiling t)), hsame,
    State.total_engines s (fun t => f (compiling t))]

end Spares
end State

namespace Machine

variable {m m' : Machine}

/-- Nothing is compiled, and no request is made. -/
structure Spares (before after : Machine) : Prop extends State.Spares before after where
  demands : after.demands = before.demands

theorem Calm.spares (h : m.Calm m') : m.Spares m' := by
  refine ⟨⟨h.caches, h.tallies.map ?_⟩, h.demands⟩
  rintro _ rfl
  rfl

/-- An engine counts something else. -/
theorem Spares.of_modify (hcaches : m'.caches = m.caches) {engine : EngineId}
    {g : Stats × Nat → Stats × Nat} (htallies : m'.tallies = m.tallies.modify engine g)
    (hg : ∀ t, State.compiling (g t) = State.compiling t) (hdemands : m'.demands = m.demands) :
    m.Spares m' := by
  refine ⟨⟨.of_eq (by rw [hcaches]), .of_eq ?_⟩, hdemands⟩
  rw [htallies, map_modify (k := fun t => t) hg]
  exact List.modify_id _ _

end Machine

theorem Linking.Relinks.spares {m m₀ : Machine} {engine : EngineId} {id : SiteId} {callee : Value}
    {args : List Value} (h : Relinks m engine id callee args m₀) : m.Spares m₀ := by
  cases h with
  | unlinked => exact (Machine.Calm.refl m).spares
  | guardFailed =>
    exact .of_modify rfl (m.tallies_count engine Stats.addGuardFailure) (fun _ => rfl) rfl
  | rejected =>
    exact .of_modify rfl (m.tallies_count engine Stats.addDeoptimization) (fun _ => rfl) rfl

/-! ## Requests -/

namespace Demand

/-- A request is made in an engine that exists, for code of a prototype of the program. -/
structure Occurs (m : Machine) (d : Demand) (m' : Machine) : Prop where
  before : d.before = m
  after : d.after = m'
  engine : d.engine < m.engines.size
  cache : m.HasCache d.proto
  run : ∃ proto, proto.ref = d.proto ∧ m.program.prototype? d.proto = some proto ∧
    (Compile.specialize d.engine proto d.signature).run.run m = (d.result, m')

/-- A request that was made of the cache of a prototype and failed. -/
def failedFor (ref : PrototypeRef) (d : Demand) : Bool :=
  d.proto.id == ref.id && !d.result.isOk

namespace Occurs

variable {m m' : Machine} {d : Demand}

/-- What a request comes to. -/
theorem serves (h : Occurs m d m') : ∃ proto : Prototype, proto.ref = d.proto ∧
    Compile.Serves m d.engine proto d.signature d.result m' := by
  obtain ⟨proto, hproto, -, hrun⟩ := h.run
  exact ⟨proto, hproto, (Machine.serves_of_specialize hrun).1⟩

/-- A request is remembered. -/
theorem demands (h : Occurs m d m') : m'.demands.get = m.demands.get ++ [d] := by
  obtain ⟨proto, hproto, -, hrun⟩ := h.run
  obtain ⟨engine, ref, signature, result, before, after⟩ := d
  obtain rfl : before = m := h.before
  obtain rfl : after = m' := h.after
  obtain rfl : proto.ref = ref := hproto
  exact (Machine.serves_of_specialize hrun).2.2

end Occurs
end Demand

/-- The requests on the way from one machine to another. -/
abbrev Demands : Machine → List Demand → Machine → Prop :=
  Chronicle Machine.Spares Demand.Occurs

namespace Demands

variable {m m' : Machine}

theorem of_mayAsk {engine : EngineId} (hengine : engine < m.engines.size)
    (h : m.MayAsk engine m') : ∃ log, Demands m log m' := by
  rcases h with rfl | @⟨proto, signature, result, hproto, hcache, hrun⟩
  · exact ⟨[], .start⟩
  · have hoccurs : Demand.Occurs m ⟨engine, proto.ref, signature, result, m, m'⟩ m' :=
      ⟨rfl, rfl, hengine, hcache, proto, rfl, hproto, hrun⟩
    exact ⟨_, .of_event hoccurs⟩

theorem of_links {engine : EngineId} (hengine : engine < m.engines.size) {id : SiteId}
    {callee : Value} {args : List Value} {result : Except Stop Linking.Outcome}
    (h : Linking.Links m engine id callee args result m') : ∃ log, Demands m log m' := by
  cases h with
  | published hasks _ =>
    obtain ⟨log, hlog⟩ := of_mayAsk hengine hasks
    exact ⟨log, hlog.idle (.of_modify (Linking.caches_published _ engine id _ _)
      (Linking.tallies_published _ engine id _ _) (fun _ => rfl)
      (Linking.memory_published _ engine id _ _).1)⟩
  | oneShot =>
    exact ⟨[], .of_idle
      (.of_modify rfl (m.tallies_count engine Stats.addOneShot) (fun _ => rfl) rfl)⟩
  | refused hasks _ => exact of_mayAsk hengine hasks

theorem of_move (h : m.Housed) (hmove : m.Move m') : ∃ log, Demands m log m' := by
  cases hmove with
  | calm hcalm => exact ⟨[], .of_idle hcalm.spares⟩
  | ask hengine hasks => exact of_mayAsk hengine (.inr hasks)
  | entry hengine _ hrelinks hrun =>
    obtain ⟨m₁, hlinks, hstate, hdemands, -⟩ := Linking.Links.of_enter (hrelinks.housed h) hrun
    obtain ⟨log, hlog⟩ := of_links (hrelinks.engines_eq ▸ hengine) hlinks
    have hrecord : m₁.Spares m' := by
      refine ⟨?_, hdemands⟩
      rw [hstate]
      exact .refl _
    exact ⟨[] ++ log, (Chronicle.of_idle hrelinks.spares).trans (hlog.idle hrecord)⟩

/-- Whatever a host does is made of requests and of what compiles nothing. -/
theorem of_deed (h : m.Housed) {d : Deed} (hvalid : d.Valid m) :
    ∃ log, Demands m log (d.apply m) := by
  cases hlink : d.isLink with
  | false => exact (d.moves h hvalid hlink).exists_chronicle of_move h
  | true =>
    obtain ⟨_, _, _, _, _, hengine, hlinks⟩ := d.links h hvalid hlink
    exact of_links hengine hlinks

/-- **The requests that a machine remembers** are those that led to it. -/
theorem of_deeds {deeds : List Deed} (hvalid : Deed.AllValid .empty deeds) :
    Demands .empty (Deed.run .empty deeds).demands.get (Deed.run .empty deeds) := by
  obtain ⟨log, hlog⟩ := Deed.exists_chronicle (P := fun _ => True)
    (fun hm hd _ => of_deed hm hd) Machine.housed_empty hvalid fun _ _ => trivial
  have hremembered := hlog.remembered (fun m => m.demands.get)
    (fun hspares => by rw [hspares.demands]) fun hoccurs => hoccurs.demands
  rw [hremembered]
  simpa [Machine.empty] using hlog

/-- Since the last request nothing was compiled. -/
theorem spares {log : List Demand} (h : Demands .empty log m) :
    (lastState Demand.after .empty log).Spares m :=
  h.since State.Spares.refl State.Spares.trans (fun hspares => hspares.toSpares)
    fun hoccurs => hoccurs.after

end Demands

/-! ## What a request changes -/

namespace Demand

/-- What a request does to the cache that it is made of: it keeps what was there, adds what it
gives for the first time, and is counted if it adds something or fails. -/
structure Changes (d : Demand) (before after : Cache) : Prop where
  keeps : ∀ signature spec, before.lookup? signature = some spec →
    after.lookup? signature = some spec
  gives : ∀ spec, d.result = .ok spec → after.lookup? d.signature = some spec
  signatures : after.signatures = before.signatures ∨
    (d.signature ∉ before.signatures ∧ d.result.isOk = true ∧
      after.signatures = d.signature :: before.signatures)
  counts : after.compileCount + before.size =
    before.compileCount + after.size + (!d.result.isOk).toNat

namespace Occurs

variable {m m' : Machine} {d : Demand}

theorem changes (h : Occurs m d m') : d.Changes (m.cache d.proto) (m'.cache d.proto) := by
  obtain ⟨proto, hproto, hserves⟩ := h.serves
  have hcache := h.cache
  rw [← hproto] at hcache ⊢
  obtain ⟨engine, ref, signature, result, before, after⟩ := d
  dsimp only at hserves ⊢
  generalize m'.toState = s' at hserves
  cases hserves with
  | @found spec hlookup =>
    refine ⟨fun _ _ hold => hold, ?_, .inl rfl, rfl⟩
    rintro _ ⟨⟩
    exact hlookup
  | @compiled spec s' hlookup hsignature _ _ hcaches _ =>
    have hcache' := State.cache_of_modify hcaches hcache
    subst hsignature
    rw [hcache']
    refine ⟨fun other old hold => ?_, ?_, .inr ⟨Cache.lookup?_eq_none_iff.mp hlookup, rfl, rfl⟩, ?_⟩
    · have hne : spec.signature ≠ other := by
        rintro rfl
        rw [hlookup] at hold
        cases hold
      rw [Cache.lookup?_insert_of_ne _ hne]
      exact hold
    · rintro _ ⟨⟩
      exact Cache.lookup?_insert _ _
    · simp [Except.isOk, Except.toBool]
      omega
  | failed _ _ hcaches _ =>
    rw [State.cache_of_modify hcaches hcache]
    refine ⟨fun _ _ hold => hold, ?_, .inl rfl, ?_⟩
    · rintro _ ⟨⟩
    · simp [Except.isOk, Except.toBool]
      omega

/-- The caches of other prototypes stay as they are. -/
theorem cache_eq (h : Occurs m d m') {ref : PrototypeRef} (hpos : 0 < ref.id)
    (hne : d.proto.id ≠ ref.id) : m'.cache ref = m.cache ref := by
  obtain ⟨proto, hproto, hserves⟩ := h.serves
  have hcache := h.cache
  rw [← hproto] at hcache hne
  generalize d.result = result at hserves
  generalize m'.toState = s' at hserves
  cases hserves with
  | found => rfl
  | compiled _ _ _ _ hcaches _ => exact State.cache_of_modify_ne hcaches hcache hpos hne
  | failed _ _ hcaches _ => exact State.cache_of_modify_ne hcaches hcache hpos hne

/-- No cache is made. -/
theorem caches_eq (h : Occurs m d m') : m'.caches.size = m.caches.size := by
  obtain ⟨proto, -, hserves⟩ := h.serves
  have hsize {f : Cache → Cache} {s' : State}
      (hcaches : s'.caches.toList = m.caches.toList.modify (proto.ref.id - 1) f) :
      s'.caches.size = m.caches.size := by
    rw [← Array.length_toList, hcaches, List.length_modify, Array.length_toList]
  generalize d.result = result at hserves
  generalize m'.toState = s' at hserves
  cases hserves with
  | found => rfl
  | compiled _ _ _ _ hcaches _ => exact hsize hcaches
  | failed _ _ hcaches _ => exact hsize hcaches

/-- A compilation is counted by the cache and by the engine, and so is what is made ready to
run. -/
theorem totals (h : Occurs m d m') : ∃ started added,
    total Cache.compileCount m'.caches.toList = total Cache.compileCount m.caches.toList + started ∧
      total (fun e => e.stats.compilations) m'.engines.toList =
        total (fun e => e.stats.compilations) m.engines.toList + started ∧
      total Cache.size m'.caches.toList = total Cache.size m.caches.toList + added ∧
      total Engine.loaded m'.engines.toList = total Engine.loaded m.engines.toList + added := by
  obtain ⟨proto, hproto, hserves⟩ := h.serves
  have hplace : proto.ref.id - 1 < m.caches.toList.length := by
    obtain ⟨hpos, hle⟩ := h.cache
    rw [hproto, Array.length_toList]
    omega
  have hengine : d.engine < m.tallies.length := by
    rw [State.length_tallies]
    exact h.engine
  rw [State.total_compilations, State.total_compilations, State.total_loaded, State.total_loaded]
  generalize d.result = result at hserves
  generalize m'.toState = s' at hserves
  cases hserves with
  | found => exact ⟨0, 0, rfl, rfl, rfl, rfl⟩
  | compiled _ _ _ _ hcaches htallies =>
    rw [hcaches, htallies]
    exact ⟨1, 1, total_modify _ (fun _ => rfl) _ hplace, total_modify _ (fun _ => rfl) _ hengine,
      total_modify _ (fun _ => rfl) _ hplace, total_modify _ (fun _ => rfl) _ hengine⟩
  | failed _ _ hcaches htallies =>
    rw [hcaches, htallies]
    exact ⟨1, 0, total_modify _ (fun _ => rfl) _ hplace, total_modify _ (fun _ => rfl) _ hengine,
      total_modify _ (fun _ => rfl) _ hplace, total_modify _ (fun _ => rfl) _ hengine⟩

end Occurs
end Demand

/-! ## One compilation per signature -/

/-- What the caches hold and what was counted, after some requests. -/
structure OneCompilation (log : List Demand) (s : State) : Prop where
  /-- What was given once is there. -/
  found : ∀ d ∈ log, ∀ spec, d.result = .ok spec →
    (s.cache d.proto).lookup? d.signature = some spec
  /-- The signatures are those of the requests that succeeded. -/
  signatures : ∀ ref : PrototypeRef, 0 < ref.id → ∀ signature,
    signature ∈ (s.cache ref).signatures ↔
      ∃ d ∈ log, d.proto.id = ref.id ∧ d.signature = signature ∧ d.result.isOk = true
  /-- Each signature is there once. -/
  nodup : ∀ ref : PrototypeRef, 0 < ref.id → (s.cache ref).signatures.Nodup
  /-- A cache has counted its entries and the compilations that failed. -/
  counted : ∀ ref : PrototypeRef, 0 < ref.id →
    (s.cache ref).compileCount = (s.cache ref).size + log.countP (Demand.failedFor ref)
  /-- All requests were made of caches that there are. -/
  places : ∀ d ∈ log, s.HasCache d.proto
  /-- Engines and caches have counted the same compilations. -/
  compilations : total (fun e => e.stats.compilations) s.engines.toList =
    total Cache.compileCount s.caches.toList
  /-- What the engines have loaded is what the caches hold. -/
  loaded : total Engine.loaded s.engines.toList = total Cache.size s.caches.toList

namespace OneCompilation

variable {log : List Demand}

theorem empty : OneCompilation [] .empty where
  found _ h := by cases h
  signatures _ _ signature := by
    constructor
    · intro h
      cases h
    · rintro ⟨_, h, -⟩
      cases h
  nodup _ _ := List.nodup_nil
  counted _ _ := rfl
  places _ h := by cases h
  compilations := rfl
  loaded := rfl

/-- **The first step.** It is kept by what compiles nothing. -/
theorem spare {s s' : State} (h : OneCompilation log s) (hspares : s.Spares s') :
    OneCompilation log s' := by
  refine ⟨fun d => ?_, fun ref => ?_, fun ref => ?_, fun ref => ?_, fun d hd => ?_, ?_, ?_⟩
  · rw [hspares.cache_eq]
    exact h.found d
  · rw [hspares.cache_eq]
    exact h.signatures ref
  · rw [hspares.cache_eq]
    exact h.nodup ref
  · rw [hspares.cache_eq]
    exact h.counted ref
  · obtain ⟨hpos, hle⟩ := h.places d hd
    have hmore := hspares.caches.length_le
    rw [Array.length_toList, Array.length_toList] at hmore
    exact ⟨hpos, Nat.le_trans hle hmore⟩
  · rw [hspares.total_caches rfl, ← h.compilations]
    exact hspares.total_engines (f := Prod.fst) rfl
  · rw [hspares.total_caches rfl, ← h.loaded]
    exact hspares.total_engines (f := Prod.snd) rfl

/-- **The second step.** It is kept by a request. -/
theorem demand {m m' : Machine} (h : OneCompilation log m) {d : Demand}
    (hoccurs : Demand.Occurs m d m') : OneCompilation (log ++ [d]) m' := by
  have hchanges := hoccurs.changes
  have hself {ref : PrototypeRef} (hid : d.proto.id = ref.id) :
      d.Changes (m.cache ref) (m'.cache ref) := by
    rwa [State.cache_congr hid, State.cache_congr hid] at hchanges
  have hfound : ∀ e ∈ log ++ [d], ∀ spec, e.result = .ok spec →
      (m'.cache e.proto).lookup? e.signature = some spec := by
    intro e he spec hspec
    rcases List.mem_append.mp he with hold | hnew
    · have hfound := h.found e hold spec hspec
      by_cases hid : d.proto.id = e.proto.id
      · exact (hself hid).keeps _ _ hfound
      · rwa [hoccurs.cache_eq (h.places e hold).1 hid]
    · obtain rfl := List.mem_singleton.mp hnew
      exact hchanges.gives spec hspec
  refine ⟨hfound, fun ref hpos signature => ⟨fun hmem => ?_, ?_⟩, fun ref hpos => ?_,
    fun ref hpos => ?_, fun e he => ?_, ?_, ?_⟩
  · have hold (hmem : signature ∈ (m.cache ref).signatures) : ∃ e ∈ log ++ [d],
        e.proto.id = ref.id ∧ e.signature = signature ∧ e.result.isOk = true := by
      obtain ⟨e, he, hasked⟩ := (h.signatures ref hpos signature).mp hmem
      exact ⟨e, List.mem_append_left _ he, hasked⟩
    by_cases hid : d.proto.id = ref.id
    · rcases (hself hid).signatures with hsame | ⟨-, hok, hcons⟩
      · exact hold (hsame ▸ hmem)
      · rw [hcons] at hmem
        rcases List.mem_cons.mp hmem with rfl | hmem
        · exact ⟨d, by simp, hid, rfl, hok⟩
        · exact hold hmem
    · rw [hoccurs.cache_eq hpos hid] at hmem
      exact hold hmem
  · rintro ⟨e, he, hid, rfl, hok⟩
    cases hresult : e.result with
    | error error =>
      rw [hresult] at hok
      cases hok
    | ok spec =>
      rw [← State.cache_congr hid]
      exact Cache.mem_signatures_of_lookup? (hfound e he spec hresult)
  · by_cases hid : d.proto.id = ref.id
    · rcases (hself hid).signatures with hsame | ⟨hnew, -, hcons⟩
      · rw [hsame]
        exact h.nodup ref hpos
      · rw [hcons]
        exact List.nodup_cons.mpr ⟨hnew, h.nodup ref hpos⟩
    · rw [hoccurs.cache_eq hpos hid]
      exact h.nodup ref hpos
  · have hbefore := h.counted ref hpos
    rw [List.countP_append, List.countP_singleton]
    by_cases hid : d.proto.id = ref.id
    · have hcounts := (hself hid).counts
      cases hok : d.result.isOk <;> simp [Demand.failedFor, hid, hok] at hcounts ⊢ <;> omega
    · rw [hoccurs.cache_eq hpos hid]
      simp [Demand.failedFor, hid, hbefore]
  · have hsize := hoccurs.caches_eq
    rcases List.mem_append.mp he with hold | hnew
    · obtain ⟨hpos, hle⟩ := h.places e hold
      exact ⟨hpos, hsize ▸ hle⟩
    · obtain rfl := List.mem_singleton.mp hnew
      exact ⟨hoccurs.cache.1, hsize ▸ hoccurs.cache.2⟩
  · obtain ⟨started, added, hcaches, hengines, -, -⟩ := hoccurs.totals
    rw [hcaches, hengines, h.compilations]
  · obtain ⟨started, added, -, -, hcaches, hengines⟩ := hoccurs.totals
    rw [hcaches, hengines, h.loaded]

/-- **The run.** It holds after everything that can happen. -/
theorem of_demands {m : Machine} (h : Demands .empty log m) : OneCompilation log m := by
  induction h with
  | start => exact .empty
  | idle _ hspares ih => exact ih.spare hspares.toSpares
  | event _ hoccurs ih => exact ih.demand hoccurs

end OneCompilation

/-- What a request comes to, after some others. -/
structure Demand.Follows (earlier : List Demand) (d : Demand) : Prop where
  /-- It is made in an engine that exists. -/
  engine : d.engine < d.before.engines.size
  /-- It is made for a prototype of the program, and it is served. -/
  served : ∃ (proto : Prototype) (m m' : Machine),
    d.before.program.prototype? d.proto = some proto ∧
    d.before = m ∧ d.after = m' ∧
    (Compile.specialize d.engine proto d.signature).run.run m = (d.result, m')
  /-- Since the request before it no cache and no counter of compiling has changed. -/
  since : (lastState Demand.after .empty earlier).Spares d.before
  /-- If an equal request has succeeded, this one gives the same, and nothing changes. -/
  repeated : ∀ e ∈ earlier, e.proto.id = d.proto.id → e.signature = d.signature →
    ∀ spec, e.result = .ok spec → d.result = .ok spec ∧ d.after = d.before
  /-- As long as none has succeeded there is no entry, and a compilation is started.  If that fails
  there still is no entry. -/
  retried : (∀ e ∈ earlier, e.proto.id = d.proto.id → e.signature = d.signature →
      e.result.isOk = false) →
    d.signature ∉ (d.before.cache d.proto).signatures ∧
    (d.after.cache d.proto).compileCount = (d.before.cache d.proto).compileCount + 1 ∧
    (d.after.engine d.engine).stats.compilations =
      (d.before.engine d.engine).stats.compilations + 1 ∧
    (d.result.isOk = false →
      (d.after.cache d.proto).entries = (d.before.cache d.proto).entries)

namespace Demand.Occurs

variable {m m' : Machine} {d : Demand}

/-- A request for what is there is served from the cache. -/
theorem eq_of_lookup? (h : Occurs m d m') {spec : Specialization}
    (hlookup : (m.cache d.proto).lookup? d.signature = some spec) :
    d.result = .ok spec ∧ m'.toState = m.toState := by
  obtain ⟨proto, hproto, hserves⟩ := h.serves
  rw [← hproto] at hlookup
  generalize d.result = result at hserves
  generalize m'.toState = s' at hserves
  cases hserves with
  | found hfound =>
    rw [hlookup] at hfound
    cases hfound
    exact ⟨rfl, rfl⟩
  | compiled hnone =>
    rw [hlookup] at hnone
    cases hnone
  | failed hnone =>
    rw [hlookup] at hnone
    cases hnone

/-- A request for what is not there starts a compilation, which is counted twice. -/
theorem starts (h : Occurs m d m') (hlookup : (m.cache d.proto).lookup? d.signature = none) :
    (m'.cache d.proto).compileCount = (m.cache d.proto).compileCount + 1 ∧
    (m'.engine d.engine).stats.compilations = (m.engine d.engine).stats.compilations + 1 ∧
    (d.result.isOk = false → (m'.cache d.proto).entries = (m.cache d.proto).entries) := by
  obtain ⟨proto, hproto, hserves⟩ := h.serves
  have hcache := h.cache
  have hengine : d.engine < m.tallies.length := by
    rw [State.length_tallies]
    exact h.engine
  rw [← hproto] at hlookup hcache ⊢
  rw [State.stats_engine, State.stats_engine]
  generalize d.result = result at hserves
  generalize m'.toState = s' at hserves
  cases hserves with
  | found hfound =>
    rw [hlookup] at hfound
    cases hfound
  | compiled _ _ _ _ hcaches htallies =>
    rw [State.cache_of_modify hcaches hcache, htallies]
    simp [hengine, Stats.addCompilation, Except.isOk, Except.toBool]
  | failed _ _ hcaches htallies =>
    rw [State.cache_of_modify hcaches hcache, htallies]
    simp [hengine, Stats.addCompilation, Cache.begun]

theorem follows {earlier : List Demand} (hearlier : Demands .empty earlier m)
    (h : Occurs m d m') : d.Follows earlier := by
  have hone := OneCompilation.of_demands hearlier
  obtain ⟨proto, hproto, hfound, hrun⟩ := h.run
  have hbefore := h.before
  have hafter := h.after
  refine ⟨hbefore ▸ h.engine, ⟨proto, m, m', hbefore ▸ hfound, hbefore, hafter, hrun⟩,
    hbefore ▸ hearlier.spares, fun e he hid hsignature spec hspec => ?_, fun hnone => ?_⟩
  · have hlookup := hone.found e he spec hspec
    rw [State.cache_congr hid, hsignature] at hlookup
    rw [hbefore, hafter]
    exact h.eq_of_lookup? hlookup
  · have hnew : d.signature ∉ (m.cache d.proto).signatures := by
      intro hmem
      obtain ⟨e, he, hid, hsignature, hok⟩ := (hone.signatures _ h.cache.1 _).mp hmem
      rw [hnone e he hid hsignature] at hok
      cases hok
    rw [hbefore, hafter]
    exact ⟨hnew, h.starts (Cache.lookup?_eq_none_iff.mpr hnew)⟩

end Demand.Occurs

/-- **One compilation per signature.**  Whatever a host does, each of the requests for
specializations that this leads to is for code of the program (`Demand.Follows`): one for a
signature that was compiled before gives what it gave then and changes nothing, and one for a
signature that was not is compiled.  At the end, and before and after each request, the caches
hold what was compiled, and all counters agree; in between nothing is compiled.  What a request
gives is what is remembered of it. -/
theorem oneCompilation_of_deeds {deeds : List Deed} (hvalid : Deed.AllValid .empty deeds) :
    let m := Deed.run .empty deeds
    OneCompilation m.demands.get m ∧ (lastState Demand.after .empty m.demands.get).Spares m ∧
    (∀ earlier d later, m.demands.get = earlier ++ d :: later →
      d.Follows earlier ∧ OneCompilation earlier d.before ∧
        OneCompilation (earlier ++ [d]) d.after) ∧
    ∀ engine proto signature result m',
      (Compile.specialize engine proto signature).run.run m = (result, m') →
      m'.demands.get = m.demands.get ++ [⟨engine, proto.ref, signature, result, m, m'⟩] := by
  intro m
  have hlog : Demands .empty m.demands.get m := Demands.of_deeds hvalid
  refine ⟨.of_demands hlog, hlog.spares, fun earlier d later hsplit => ?_,
    fun _ _ _ _ _ hrun => (Machine.serves_of_specialize hrun).2.2⟩
  obtain ⟨m₁, m₂, hearlier, hoccurs⟩ := hlog.upTo hsplit
  refine ⟨hoccurs.follows hearlier, ?_, ?_⟩
  · rw [hoccurs.before]
    exact .of_demands hearlier
  · rw [hoccurs.after]
    exact .of_demands (hearlier.event hoccurs)

/-- Two engines, a function that returns its argument and one that leaves a loop where there is
none.  The first is specialized in one engine and called in the other, for the same signature; the
second is asked for in both. -/
def Deed.askTwice : List Deed :=
  [.operate (.addPrototype "id" ["x"] [] [] [.ret [.slot 0]]),
    .operate (.addPrototype "stray" [] [] [] [.breakLoop]),
    .operate (.addEngine .default), .operate (.addEngine .default),
    .operate (.specialize 0 ⟨1, "id"⟩ [.integer] [] false),
    .operate (.addFunction "id" (.closure ⟨⟨1, "id"⟩, [], 1⟩)),
    .operate (.call 2 (.direct ⟨0, "id"⟩ [.int 7])),
    .fetch 0 ⟨2, "stray"⟩ ⟨[], [], false⟩, .fetch 1 ⟨2, "stray"⟩ ⟨[], [], false⟩]

theorem Deed.allValid_askTwice : AllValid .empty askTwice := by
  refine ⟨trivial, trivial, trivial, trivial, ?_, ?_, trivial, ?_, ?_, trivial⟩
  · show 0 < _
    decide +kernel
  · rintro _ ⟨⟩
    show 1 < _
    decide +kernel
  · show 0 < _
    decide +kernel
  · show 1 < _
    decide +kernel

/-- One compilation serves both engines, and the failures are counted where they happened. -/
theorem oneCompilation_of_deeds_askTwice :
    let m := Deed.run .empty Deed.askTwice
    Deed.AllValid .empty Deed.askTwice ∧
      m.caches.toList.map (fun c => (c.size, c.compileCount)) = [(1, 1), (0, 2)] ∧
      m.tallies.map State.compiling = [(2, 1), (1, 0)] ∧
      m.demands.get.countP (Demand.failedFor ⟨1, "id"⟩) = 0 ∧
      m.demands.get.countP (Demand.failedFor ⟨2, "stray"⟩) = 2 ∧
      (∃ d ∈ m.demands.get, d.proto.id = 1 ∧ d.signature = ⟨[.integer], [], false⟩ ∧
        d.result.isOk = true) ∧
      OneCompilation m.demands.get m ∧
      ∀ earlier d later, m.demands.get = earlier ++ d :: later → d.Follows earlier := by
  intro m
  have hone : OneCompilation m.demands.get m ∧
      ∀ earlier d later, m.demands.get = earlier ++ d :: later → d.Follows earlier := by
    obtain ⟨hone, -, hrequests, -⟩ := oneCompilation_of_deeds Deed.allValid_askTwice
    exact ⟨hone, fun earlier d later hsplit => (hrequests earlier d later hsplit).1⟩
  have hid : (m.cache ⟨1, "id"⟩).compileCount = 1 ∧ (m.cache ⟨1, "id"⟩).size = 1 := by
    decide +kernel
  have hstray : (m.cache ⟨2, "stray"⟩).compileCount = 2 ∧ (m.cache ⟨2, "stray"⟩).size = 0 := by
    decide +kernel
  have hsignature : ⟨[.integer], [], false⟩ ∈ (m.cache ⟨1, "id"⟩).signatures := by
    decide +kernel
  have hcaches : m.caches.toList.map (fun c => (c.size, c.compileCount)) = [(1, 1), (0, 2)] := by
    decide +kernel
  have htallies : m.tallies.map State.compiling = [(2, 1), (1, 0)] := by
    decide +kernel
  clear_value m
  have hcounted := hone.1.counted ⟨1, "id"⟩ Nat.one_pos
  have hfailed := hone.1.counted ⟨2, "stray"⟩ Nat.two_pos
  refine ⟨Deed.allValid_askTwice, hcaches, htallies, by omega, by omega,
    (hone.1.signatures ⟨1, "id"⟩ Nat.one_pos _).mp hsignature, hone⟩

end AdaptiveScript
