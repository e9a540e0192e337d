import AdaptiveScript.Proofs.Run.Deeds

/-!
# Linking is all or nothing, and all of it is counted

A call that enters the linker has a cause: the site has no link, its guard holds the callee back,
or its target turns the arguments down.  And the entry has an ending: a link is published, an
overload is called once, or the linker gives up.  An entry that publishes replaces the site as a
whole, and every other entry leaves it exactly as it was (`Linking.Entry.AllOrNothing`).

A machine remembers all entries (`Machine.entries`).  In between nothing else changes a link, the
policy of a site or a counter of linking (`State.Idles`), so each of these counters is the number
of entries of one kind (`Linking.Accounted`).  The proof goes by chronicles, whose events are
entries (`Linking.Enters`).
-/

namespace AdaptiveScript

/-! ## Counters of linking -/

/-- The counters that have to do with linking. -/
def Stats.linking (s : Stats) : Stats :=
  { s with compilations := 0 }

namespace State

variable {s s' : State}

/-- What the engines have counted of linking, in their order. -/
def linkings (s : State) : List Stats :=
  s.tallies.map fun t => t.1.linking

theorem length_linkings (s : State) : s.linkings.length = s.engines.size := by
  rw [linkings, List.length_map, length_tallies]

theorem linking_stats (s : State) (id : EngineId) :
    (s.engine id).stats.linking = s.linkings[id]?.getD .zero := by
  rw [stats_engine, linkings, List.getElem?_map]
  cases s.tallies[id]? <;> rfl

theorem linkings_of_modify {engine : EngineId} {g : Stats × Nat → Stats × Nat} {k : Stats → Stats}
    (h : s'.tallies = s.tallies.modify engine g) (hg : ∀ t, (g t).1.linking = k t.1.linking) :
    s'.linkings = s.linkings.modify engine k := by
  rw [linkings, h, map_modify hg]
  rfl

/-- Sites and engines may be made, but no site and no counter of linking changes. -/
structure Idles (before after : State) : Prop where
  sites : before.sites.Adds after.sites
  counters : Appends (· = .zero) before.linkings after.linkings

namespace Idles

theorem refl (s : State) : s.Idles s :=
  ⟨.refl _, .refl _⟩

theorem trans {a b c : State} (hab : a.Idles b) (hbc : b.Idles c) : a.Idles c :=
  ⟨Appends.trans hab.sites hbc.sites, hab.counters.trans hbc.counters⟩

end Idles
end State

/-- A request for a specialization is not counted as linking. -/
theorem Compile.Serves.linkings_eq {s s' : State} {engine : EngineId} {proto : Prototype}
    {signature : Signature} {result : Except CompileError Specialization}
    (h : Serves s engine proto signature result s') : s'.linkings = s.linkings := by
  have hsame {g : Stats × Nat → Stats × Nat} (htallies : s'.tallies = s.tallies.modify engine g)
      (hg : ∀ t, (g t).1.linking = t.1.linking) : s'.linkings = s.linkings := by
    rw [State.linkings_of_modify htallies (k := fun t => t) hg]
    exact List.modify_id _ _
  cases h with
  | found => rfl
  | compiled _ _ _ _ _ htallies => exact hsame htallies fun _ => rfl
  | failed _ _ _ htallies => exact hsame htallies fun _ => rfl

namespace Machine

variable {m m' : Machine}

theorem Asks.linkings_eq {engine : EngineId} (h : m.Asks engine m') :
    m'.linkings = m.linkings := by
  obtain ⟨_, _, _, hserves⟩ := h.serves
  exact hserves.linkings_eq

theorem MayAsk.linkings_eq {engine : EngineId} (h : m.MayAsk engine m') :
    m'.linkings = m.linkings := by
  rcases h with rfl | hasks
  · rfl
  · exact hasks.linkings_eq

/-- Nothing is linked, and the linker is not entered. -/
structure Idles (before after : Machine) : Prop extends State.Idles before after where
  entries : after.entries = before.entries
  housed : before.Housed → after.Housed

theorem Calm.idles (h : m.Calm m') : m.Idles m' := by
  refine ⟨⟨h.sites, h.tallies.map ?_⟩, h.entries, h.housed⟩
  rintro _ rfl
  rfl

theorem Asks.idles {engine : EngineId} (h : m.Asks engine m') : m.Idles m' :=
  ⟨⟨h.undisturbed.sites, .of_eq h.linkings_eq⟩, h.entries_eq, h.housed⟩

end Machine

/-! ## Causes and endings -/

namespace Linking

/-- Why a call enters the linker. -/
inductive Cause where
  /-- The site has no link. -/
  | unlinked
  /-- The guard of the link holds the callee back. -/
  | guardFailed
  /-- The target of the link turns the arguments down. -/
  | rejected
  deriving DecidableEq

namespace Cause

/-- Why a call that enters the linker does so. -/
def ofCall (s : State) (id : SiteId) (callee : Value) : Cause :=
  match (s.sites.get id).link with
  | none => .unlinked
  | some link => if link.guard.holds s.heap callee then .rejected else .guardFailed

/-- How a cause is counted. -/
def count : Cause → Stats → Stats
  | .unlinked, s => s
  | .guardFailed, s => s.addGuardFailure
  | .rejected, s => s.addDeoptimization

end Cause

/-- What an entry into the linker comes to. -/
inductive Ending where
  /-- A link is published. -/
  | published
  /-- An overload is called once. -/
  | oneShot
  /-- The linker gives up. -/
  | failed
  deriving DecidableEq

namespace Ending

/-- The ending that goes with a result. -/
def ofResult : Except Stop Outcome → Ending
  | .ok (.linked _) => .published
  | .ok (.oneShot _ _) => .oneShot
  | .error _ => .failed

/-- How an ending is counted. -/
def count : Ending → Stats → Stats
  | .published, s => s.addRelink
  | .oneShot, s => s.addOneShot
  | .failed, s => s

end Ending

section Counting

variable {m m₀ m' : Machine} {engine : EngineId} {id : SiteId} {callee : Value} {args : List Value}

theorem Relinks.linkings (h : Relinks m engine id callee args m₀) :
    m₀.linkings = m.linkings.modify engine (Cause.ofCall m id callee).count := by
  cases h with
  | unlinked hlink =>
    rw [Cause.ofCall, hlink]
    exact (List.modify_id _ _).symm
  | guardFailed hlink hguard =>
    rw [Cause.ofCall, hlink]
    dsimp only
    rw [hguard]
    exact State.linkings_of_modify (m.tallies_count engine Stats.addGuardFailure) fun _ => rfl
  | rejected hlink hguard _ =>
    rw [Cause.ofCall, hlink]
    dsimp only
    rw [hguard]
    exact State.linkings_of_modify (m.tallies_count engine Stats.addDeoptimization) fun _ => rfl

theorem Links.linkings {result : Except Stop Outcome}
    (h : Links m engine id callee args result m') :
    m'.linkings = m.linkings.modify engine (Ending.ofResult result).count := by
  cases h with
  | published hasks _ =>
    rw [State.linkings_of_modify (tallies_published _ engine id _ _) (k := Stats.addRelink)
      fun _ => rfl, hasks.linkings_eq]
    rfl
  | oneShot =>
    exact State.linkings_of_modify (m.tallies_count engine Stats.addOneShot) fun _ => rfl
  | refused hasks _ =>
    rw [hasks.linkings_eq]
    exact (List.modify_id _ _).symm

theorem Relinks.planAt_eq (h : Relinks m engine id callee args m₀) :
    planAt m₀ engine id args = planAt m engine id args := by
  rw [planAt, planAt, h.sites, h.config, h.typeOf]

theorem Relinks.entries (h : Relinks m engine id callee args m₀) : m₀.entries = m.entries := by
  cases h <;> rfl

theorem Refuses.of_same {s s' : State} {error : RuntimeError} (h : Refuses s args callee error)
    (hheap : s'.heap = s.heap) (hshapes : s'.shapes = s.shapes) : Refuses s' args callee error := by
  cases h with
  | notCallable hnone => exact .notCallable (by rwa [hheap])
  | compilation hclosure => exact .compilation (by rwa [hheap])
  | binding hclosure hlength => exact .binding (by rwa [hheap]) hlength
  | noOverload hhost hselect => exact .noOverload (by rwa [hheap]) (by rwa [hheap, hshapes])

theorem Relinks.refuses (h : Relinks m engine id callee args m₀) {error : RuntimeError}
    (hrefuses : Refuses m₀ args callee error) : Refuses m args callee error := by
  cases h with
  | unlinked => exact hrefuses
  | guardFailed => exact hrefuses.of_same rfl rfl
  | rejected => exact hrefuses.of_same rfl rfl

end Counting

/-! ## Entries into the linker -/

theorem Sites.toList_set (sites : Sites) {id : SiteId} (hpos : 0 < id) (site : Site) :
    (sites.set id site).sites.toList = sites.sites.toList.set (id - 1) site := by
  obtain ⟨index, rfl⟩ := Nat.exists_eq_add_one.mpr hpos
  exact Array.toList_setIfInBounds

theorem Sites.getElem?_eq_get {sites : Sites} {id : SiteId} (hpos : 0 < id)
    (hle : id ≤ sites.sites.size) : sites.sites.toList[id - 1]? = some (sites.get id) := by
  obtain ⟨index, rfl⟩ := Nat.exists_eq_add_one.mpr hpos
  have hlt : index < sites.sites.size := hle
  simp [get, Array.getD_eq_getD_getElem?, hlt]

namespace Entry

/-- Why the linker is entered. -/
def cause (e : Entry) : Cause :=
  .ofCall e.before e.site e.callee

/-- What the entry comes to. -/
def ending (e : Entry) : Ending :=
  .ofResult e.result

/-- The plan for a link. -/
def plan (e : Entry) : Plan :=
  planAt e.before e.engine e.site e.args

/-- How an entry is counted. -/
def count (e : Entry) (s : Stats) : Stats :=
  e.ending.count (e.cause.count s)

/-- An entry takes place in an engine that exists, at a site that exists, and is remembered. -/
structure Occurs (m : Machine) (e : Entry) (m' : Machine) : Prop where
  before : e.before = m
  after : e.after = m'
  engine : e.engine < m.engines.size
  site : 0 < e.site ∧ e.site ≤ m.sites.sites.size
  run : ∃ m₀, Relinks m e.engine e.site e.callee e.args m₀ ∧
    (enter (.of m) e.engine e.site e.callee e.args).run.run m₀ = (e.result, m')
  entries : m'.entries.get = m.entries.get ++ [e]

/-- The entry publishes a link: the link is in place, and the policy has taken it into account. -/
structure Publishes (e : Entry) (link : Link) : Prop where
  result : e.result = .ok (.linked link)
  site : e.after.sites.get e.site =
    (e.before.sites.get e.site).publish (e.before.engine e.engine).config e.plan link
  slot : (e.after.sites.get e.site).link = some link
  relinks : (e.after.sites.get e.site).history.relinks =
    succ32 (e.before.sites.get e.site).history.relinks
  last : (e.after.sites.get e.site).history.last = some (e.plan.source, e.plan.types)
  guard : (e.after.sites.get e.site).history.guard = some link.guard.kind

/-- The site is exactly as it was, its link and its policy included. -/
def Keeps (e : Entry) : Prop :=
  e.after.sites.get e.site = e.before.sites.get e.site

/-- What an entry comes to at its site. -/
inductive Settles (e : Entry) : Prop
  /-- A link is published. -/
  | published {link : Link} : e.Publishes link → Settles e
  /-- An overload is called once. -/
  | oneShot {ref : FunctionRef} {overload : Nat} : e.result = .ok (.oneShot ref overload) →
    e.Keeps → Settles e
  /-- The linker gives up. -/
  | failed {error : RuntimeError} : e.result = .error (.error error) →
    Refuses e.before e.args e.callee error → e.Keeps → Settles e

/-- An entry is counted once for its cause and once for its ending, and it changes nothing else
of what has to do with links. -/
structure AllOrNothing (e : Entry) : Prop where
  settles : e.Settles
  counted : (e.after.engine e.engine).stats.linking =
    e.count (e.before.engine e.engine).stats.linking
  sites : ∀ id, id ≠ e.site → id ≤ e.before.sites.sites.size →
    e.after.sites.get id = e.before.sites.get id
  engines : ∀ id, id ≠ e.engine →
    (e.after.engine id).stats.linking = (e.before.engine id).stats.linking

/-- What an entry does to sites: some are made, and then a link may be published at one of those
that there were. -/
inductive Changes (e : Entry) (s s' : State) : Prop
  | published {link : Link} {sites : Sites} : e.result = .ok (.linked link) →
    s.sites.Adds sites → s'.sites = sites.set e.site
      ((s.sites.get e.site).publish (s.engine e.engine).config e.plan link) → Changes e s s'
  | oneShot {ref : FunctionRef} {overload : Nat} : e.result = .ok (.oneShot ref overload) →
    s.sites.Adds s'.sites → Changes e s s'
  | failed {error : RuntimeError} : e.result = .error (.error error) →
    Refuses s e.args e.callee error → s.sites.Adds s'.sites → Changes e s s'

namespace Occurs

variable {m m' : Machine} {e : Entry}

/-- An entry has a cause, which is counted, and then the linker runs. -/
theorem links (h : Occurs m e m') (hm : m.Housed) : ∃ m₀ m₁ : Machine,
    Relinks m e.engine e.site e.callee e.args m₀ ∧ m₀.Housed ∧
      Links m₀ e.engine e.site e.callee e.args e.result m₁ ∧ m'.toState = m₁.toState := by
  obtain ⟨m₀, hrelinks, hrun⟩ := h.run
  have hm₀ := hrelinks.housed hm
  obtain ⟨m₁, hlinks, hstate, -, -⟩ := Links.of_enter hm₀ hrun
  exact ⟨m₀, m₁, hrelinks, hm₀, hlinks, hstate⟩

theorem housed (h : Occurs m e m') (hm : m.Housed) : m'.Housed := by
  obtain ⟨m₀, m₁, -, hm₀, hlinks, hstate⟩ := h.links hm
  rw [hstate]
  exact hlinks.housed hm₀

theorem linkings (h : Occurs m e m') (hm : m.Housed) :
    m'.linkings = m.linkings.modify e.engine e.count := by
  obtain ⟨m₀, m₁, hrelinks, -, hlinks, hstate⟩ := h.links hm
  have hcause : e.cause = .ofCall m e.site e.callee := by
    rw [cause, h.before]
  rw [hstate, hlinks.linkings, hrelinks.linkings, ← hcause, List.modify_modify_eq]
  rfl

/-- What happens to the sites in an entry. -/
theorem changes (h : Occurs m e m') (hm : m.Housed) : e.Changes m m' := by
  obtain ⟨m₀, m₁, hrelinks, -, hlinks, hstate⟩ := h.links hm
  have hsites := hrelinks.sites
  have hplan : e.plan = planAt m₀ e.engine e.site e.args := by
    rw [plan, h.before, hrelinks.planAt_eq]
  have hconfig := hrelinks.config
  rw [hstate]
  generalize hresult : e.result = result at hlinks
  cases hlinks with
  | @published m₂ link hasks _ =>
    have hadds := hasks.undisturbed.sites
    refine .published hresult (hsites ▸ hadds) ?_
    rw [sites_published, hplan, hadds.get_eq (hsites ▸ h.site.2), hsites,
      hasks.undisturbed.config, hconfig]
  | oneShot => exact .oneShot hresult (.of_eq (congrArg (fun s => s.sites.toList) hsites))
  | refused hasks hrefuses =>
    exact .failed hresult (hrelinks.refuses hrefuses) (hsites ▸ hasks.undisturbed.sites)

/-- **An entry is all or nothing.** -/
theorem allOrNothing (h : Occurs m e m') (hm : m.Housed) : e.AllOrNothing := by
  have hlinkings := h.linkings hm
  have hchanges := h.changes hm
  have hengine : e.engine < m.linkings.length := by
    rw [State.length_linkings]
    exact h.engine
  obtain ⟨hpos, hle⟩ := h.site
  rw [← h.before] at hlinkings hchanges hengine hle
  rw [← h.after] at hlinkings hchanges
  refine ⟨?_, ?_, fun id hne hid => ?_, fun id hne => ?_⟩
  · cases hchanges with
    | @published link _ hresult hadds hsites =>
      have hsite : e.after.sites.get e.site = (e.before.sites.get e.site).publish
          (e.before.engine e.engine).config e.plan link := by
        rw [hsites, Sites.get_set hpos (Nat.le_trans hle hadds.size_le)]
      refine .published ⟨hresult, hsite, ?_, ?_, ?_, ?_⟩ <;> (rw [hsite]; rfl)
    | oneShot hresult hadds => exact .oneShot hresult (hadds.get_eq hle)
    | failed hresult hrefuses hadds => exact .failed hresult hrefuses (hadds.get_eq hle)
  · rw [State.linking_stats, State.linking_stats, hlinkings]
    simp [hengine]
  · cases hchanges with
    | published _ hadds hsites =>
      rw [hsites, Sites.get_set_of_ne _ hne]
      exact hadds.get_eq hid
    | oneShot _ hadds => exact hadds.get_eq hid
    | failed _ _ hadds => exact hadds.get_eq hid
  · rw [State.linking_stats, State.linking_stats, hlinkings,
      List.getElem?_modify_ne e.count _ hne.symm]

end Occurs

/-! ## What each entry is counted as -/

/-- A link is published at a site. -/
def publishesAt (id : SiteId) (e : Entry) : Bool :=
  e.site == id && e.ending == .published

section Count

variable (e : Entry) (s : Stats)

theorem relinks_count : (e.count s).relinks = s.relinks + (e.ending == .published).toNat := by
  unfold count
  cases e.cause <;> cases e.ending <;> rfl

theorem deoptimizations_count :
    (e.count s).deoptimizations = s.deoptimizations + (e.cause == .rejected).toNat := by
  unfold count
  cases e.cause <;> cases e.ending <;> rfl

theorem oneShotCalls_count :
    (e.count s).oneShotCalls = s.oneShotCalls + (e.ending == .oneShot).toNat := by
  unfold count
  cases e.cause <;> cases e.ending <;> rfl

theorem guardFailures_count :
    (e.count s).guardFailures = s.guardFailures + (e.cause == .guardFailed).toNat := by
  unfold count
  cases e.cause <;> cases e.ending <;> rfl

end Count

/-- The links published at a site, as its policy has counted them. -/
theorem Occurs.relinks_get {m m' : Machine} {e : Entry} (h : Occurs m e m') (hm : m.Housed)
    (id : SiteId) : (m'.sites.get id).history.relinks =
      if e.publishesAt id then succ32 (m.sites.get id).history.relinks
      else (m.sites.get id).history.relinks := by
  have hadds {sites : Sites} (hadds : m.sites.Adds sites) :
      (sites.get id).history.relinks = (m.sites.get id).history.relinks :=
    hadds.read_eq (fun s => s.history.relinks) (fun _ _ => rfl) id
  obtain ⟨hpos, hle⟩ := h.site
  cases h.changes hm with
  | published hresult hsome hsites =>
    rw [hsites]
    by_cases hid : e.site = id
    · subst hid
      rw [Sites.get_set hpos (Nat.le_trans hle hsome.size_le)]
      simp [publishesAt, ending, hresult, Ending.ofResult, Site.publish, History.record]
    · rw [Sites.get_set_of_ne _ (Ne.symm hid)]
      simpa [publishesAt, hid] using hadds hsome
  | oneShot hresult hsome =>
    simpa [publishesAt, ending, hresult, Ending.ofResult] using hadds hsome
  | failed hresult _ hsome =>
    simpa [publishesAt, ending, hresult, Ending.ofResult] using hadds hsome

end Entry

/-! ## Chronicles of entries -/

/-- The entries into the linker on the way from one machine to another. -/
abbrev Enters : Machine → List Entry → Machine → Prop :=
  Chronicle Machine.Idles Entry.Occurs

namespace Enters

variable {m m' : Machine} {log : List Entry}

theorem of_move (h : m.Housed) (hmove : m.Move m') : ∃ log, Enters m log m' := by
  cases hmove with
  | calm hcalm => exact ⟨[], .of_idle hcalm.idles⟩
  | ask _ hasks => exact ⟨[], .of_idle hasks.idles⟩
  | @entry m₀ _ engine id callee args result hengine hid hrelinks hrun =>
    obtain ⟨_, -, -, -, hentries⟩ := Links.of_enter (hrelinks.housed h) hrun
    rw [hrelinks.entries, Ghost.get_of] at hentries
    have hoccurs : Entry.Occurs m ⟨engine, id, callee, args, result, m, m'⟩ m' :=
      ⟨rfl, rfl, hengine, hid, ⟨m₀, hrelinks, hrun⟩, hentries⟩
    exact ⟨_, .of_event hoccurs⟩

theorem housed (h : Enters m log m') (hm : m.Housed) : m'.Housed := by
  induction h with
  | start => exact hm
  | idle _ hidles ih => exact hidles.housed ih
  | event _ hoccurs ih => exact hoccurs.housed ih

/-- **The entries that a machine remembers** are those that led to it. -/
theorem of_deeds {deeds : List Deed} (hvalid : Deed.AllValid .empty deeds)
    (hcalls : ∀ d ∈ deeds, d.isLink = false) :
    Enters .empty (Deed.run .empty deeds).entries.get (Deed.run .empty deeds) := by
  obtain ⟨log, hlog⟩ := Deed.exists_chronicle (P := fun d => d.isLink = false)
    (fun hm hd hlink => (Deed.moves hm hd hlink).exists_chronicle of_move hm)
    Machine.housed_empty hvalid hcalls
  have hremembered := hlog.remembered (fun m => m.entries.get)
    (fun hidles => by rw [hidles.entries]) fun hoccurs => hoccurs.entries
  rw [hremembered]
  simpa [Machine.empty] using hlog

/-- Since the last entry nothing was linked. -/
theorem idles (h : Enters .empty log m) : (lastState Entry.after .empty log).Idles m :=
  h.since State.Idles.refl State.Idles.trans (fun hidles => hidles.toIdles)
    fun hoccurs => hoccurs.after

/-- **A counter of linking** is the number of entries that it counts. -/
theorem counter_eq {f : Stats → Nat} {p : Entry → Bool} (hzero : f .zero = 0)
    (hcount : ∀ e s, f (e.count s) = f s + (p e).toNat) (h : Enters .empty log m)
    (engine : EngineId) : f (m.engine engine).stats.linking =
      log.countP fun e => e.engine == engine && p e := by
  induction h with
  | start => exact hzero
  | idle _ hidles ih =>
    rw [State.linking_stats, hidles.counters.getD_eq, ← State.linking_stats]
    exact ih
  | @event log m₁ m' e hbefore hoccurs ih =>
    have hall := hoccurs.allOrNothing (housed hbefore Machine.housed_empty)
    rw [List.countP_append, List.countP_singleton, ← ih, ← hoccurs.before, ← hoccurs.after]
    by_cases hengine : e.engine = engine
    · subst hengine
      rw [hall.counted, hcount]
      cases p e <;> simp
    · rw [hall.engines engine (Ne.symm hengine)]
      simp [hengine]

/-- The links published at a site, as its policy has counted them. -/
theorem relinks_eq (h : Enters .empty log m) (id : SiteId) :
    (m.sites.get id).history.relinks =
      min (log.countP (Entry.publishesAt id)) (UInt32.size - 1) := by
  induction h with
  | start => cases id <;> rfl
  | idle _ hidles ih =>
    rw [← ih]
    exact hidles.sites.read_eq (fun s => s.history.relinks) (fun _ _ => rfl) id
  | event hbefore hoccurs ih =>
    rw [hoccurs.relinks_get (housed hbefore Machine.housed_empty), ih, List.countP_append,
      List.countP_singleton]
    split
    · rw [succ32]
      omega
    · rfl

theorem total_linkings (h : Enters .empty log m) :
    total Stats.relinks m.linkings = log.countP fun e => e.ending == .published := by
  induction h with
  | start => rfl
  | idle _ hidles ih =>
    rw [← ih]
    refine hidles.counters.total_eq ?_
    rintro _ rfl
    rfl
  | @event log m₁ m' e hbefore hoccurs ih =>
    have hengine : e.engine < m₁.linkings.length := by
      rw [State.length_linkings]
      exact hoccurs.engine
    rw [hoccurs.linkings (housed hbefore Machine.housed_empty),
      total_modify Stats.relinks e.relinks_count _ hengine, ih, List.countP_append,
      List.countP_singleton]
    cases e.ending <;> rfl

theorem total_sites (h : Enters .empty log m)
    (hfew : ∀ id, log.countP (Entry.publishesAt id) < UInt32.size) :
    total (fun s => s.history.relinks) m.sites.sites.toList =
      log.countP fun e => e.ending == .published := by
  have hadds {before after : Sites} (hadds : before.Adds after) :
      total (fun s => s.history.relinks) after.sites.toList =
        total (fun s => s.history.relinks) before.sites.toList := by
    refine Appends.total_eq hadds ?_
    rintro _ ⟨static, truncate, rfl⟩
    rfl
  induction h with
  | start => rfl
  | idle _ hidles ih => rw [← ih hfew, hadds hidles.sites]
  | @event log m₁ m' e hbefore hoccurs ih =>
    have hm₁ := housed hbefore Machine.housed_empty
    have hearlier (id : SiteId) : log.countP (Entry.publishesAt id) < UInt32.size := by
      have hall := hfew id
      rw [List.countP_append] at hall
      omega
    rw [List.countP_append, List.countP_singleton, ← ih hearlier]
    obtain ⟨hpos, hle⟩ := hoccurs.site
    cases hoccurs.changes hm₁ with
    | published hresult hsome hsites =>
      have hpublished : e.ending = .published := by
        rw [Entry.ending, hresult]
        rfl
      -- the counter of the site is not full yet
      have hnext : succ32 (m₁.sites.get e.site).history.relinks =
          (m₁.sites.get e.site).history.relinks + 1 := by
        have hall := hfew e.site
        rw [List.countP_append, List.countP_singleton, Entry.publishesAt, hpublished,
          beq_self_eq_true, beq_self_eq_true, Bool.and_self, if_pos rfl] at hall
        apply succ32_eq
        rw [relinks_eq hbefore]
        omega
      have hat := Sites.getElem?_eq_get hpos (Nat.le_trans hle hsome.size_le)
      rw [hsome.get_eq hle] at hat
      rw [hsites, Sites.toList_set _ hpos, total_set _ hnext hat, hadds hsome, hpublished]
      rfl
    | oneShot hresult hsome =>
      rw [hadds hsome, Entry.ending, hresult]
      rfl
    | failed hresult _ hsome =>
      rw [hadds hsome, Entry.ending, hresult]
      rfl

end Enters

/-! ## The account -/

/-- If each element is of one of three kinds, then so are those that are counted. -/
theorem countP_eq_add {α : Type} {a b c : α → Bool}
    (hone : ∀ x, (a x).toNat + (b x).toNat + (c x).toNat = 1) (p : α → Bool) (xs : List α) :
    xs.countP p = xs.countP (fun x => p x && a x) + xs.countP (fun x => p x && b x) +
      xs.countP (fun x => p x && c x) := by
  induction xs with
  | nil => rfl
  | cons x xs ih =>
    have hx : (if p x then 1 else 0) = (if p x && a x then 1 else 0) +
        (if p x && b x then 1 else 0) + (if p x && c x then 1 else 0) := by
      have hkind := hone x
      revert hkind
      cases p x <;> cases a x <;> cases b x <;> cases c x <;> decide
    simp only [List.countP_cons, ih]
    omega

namespace Entry

/-- There is no link at the site when the linker is entered. -/
def unlinked (e : Entry) : Bool :=
  (e.before.sites.get e.site).link.isNone

/-- The linker fails. -/
def failed (e : Entry) : Bool :=
  !e.result.isOk

theorem one_cause (e : Entry) : e.unlinked.toNat + (e.cause == .guardFailed).toNat +
    (e.cause == .rejected).toNat = 1 := by
  unfold unlinked cause Cause.ofCall
  cases (e.before.sites.get e.site).link with
  | none => rfl
  | some link =>
    dsimp only
    cases link.guard.holds e.before.heap e.callee <;> rfl

theorem one_ending (e : Entry) : (e.ending == .published).toNat +
    (e.ending == .oneShot).toNat + e.failed.toNat = 1 := by
  unfold failed ending
  cases e.result with
  | error stop => rfl
  | ok outcome => cases outcome <;> rfl

end Entry

/-- What can be relied on after some entries into the linker. -/
structure Accounted (log : List Entry) (s : State) : Prop where
  /-- Each counter of an engine is the number of its entries of one kind. -/
  counters : ∀ engine, (s.engine engine).stats.linking =
    { compilations := 0
      relinks := log.countP fun e => e.engine == engine && e.ending == .published
      deoptimizations := log.countP fun e => e.engine == engine && e.cause == .rejected
      oneShotCalls := log.countP fun e => e.engine == engine && e.ending == .oneShot
      guardFailures := log.countP fun e => e.engine == engine && e.cause == .guardFailed }
  /-- The linker was entered as often as there was no link, or one that could not be used. -/
  causes : ∀ engine, log.countP (fun e => e.engine == engine) =
    log.countP (fun e => e.engine == engine && e.unlinked) +
      (s.engine engine).stats.guardFailures + (s.engine engine).stats.deoptimizations
  /-- The linker was entered as often as it published, called an overload once, or failed. -/
  endings : ∀ engine, log.countP (fun e => e.engine == engine) =
    (s.engine engine).stats.relinks + (s.engine engine).stats.oneShotCalls +
      log.countP (fun e => e.engine == engine && e.failed)
  /-- A site has counted the links that were published there, as far as its counter goes. -/
  sites : ∀ id, (s.sites.get id).history.relinks =
    min (log.countP (Entry.publishesAt id)) (UInt32.size - 1)
  /-- As long as no counter of a site is full, sites and engines have counted the same links. -/
  relinks : (∀ id, log.countP (Entry.publishesAt id) < UInt32.size) →
    total (fun e => e.stats.relinks) s.engines.toList =
      total (fun site => site.history.relinks) s.sites.sites.toList
  /-- So has the one engine that calls were made in, if there is only one. -/
  inOneEngine : (∀ id, log.countP (Entry.publishesAt id) < UInt32.size) →
    ∀ engine, (∀ e ∈ log, e.engine = engine) →
      (s.engine engine).stats.relinks =
        total (fun site => site.history.relinks) s.sites.sites.toList

namespace Enters

variable {m : Machine} {log : List Entry} (h : Enters .empty log m) (engine : EngineId)

include h

theorem stats_relinks : (m.engine engine).stats.relinks =
    log.countP fun e => e.engine == engine && e.ending == .published :=
  h.counter_eq rfl Entry.relinks_count engine

theorem stats_deoptimizations : (m.engine engine).stats.deoptimizations =
    log.countP fun e => e.engine == engine && e.cause == .rejected :=
  h.counter_eq rfl Entry.deoptimizations_count engine

theorem stats_oneShotCalls : (m.engine engine).stats.oneShotCalls =
    log.countP fun e => e.engine == engine && e.ending == .oneShot :=
  h.counter_eq rfl Entry.oneShotCalls_count engine

theorem stats_guardFailures : (m.engine engine).stats.guardFailures =
    log.countP fun e => e.engine == engine && e.cause == .guardFailed :=
  h.counter_eq rfl Entry.guardFailures_count engine

/-- **The account is right** after everything that can happen. -/
theorem accounted : Accounted log m where
  counters engine := by
    rw [← h.stats_relinks, ← h.stats_deoptimizations, ← h.stats_oneShotCalls,
      ← h.stats_guardFailures]
    rfl
  causes engine := by
    rw [h.stats_guardFailures, h.stats_deoptimizations]
    exact countP_eq_add Entry.one_cause _ log
  endings engine := by
    rw [h.stats_relinks, h.stats_oneShotCalls]
    exact countP_eq_add Entry.one_ending _ log
  sites := h.relinks_eq
  relinks hfew := by
    have hengines := h.total_linkings
    rw [State.linkings, State.tallies, total_map, total_map] at hengines
    rw [h.total_sites hfew]
    exact hengines
  inOneEngine hfew engine hall := by
    rw [h.stats_relinks, h.total_sites hfew]
    apply List.countP_congr
    intro e he
    simp [hall e he]

end Enters

/-- What an entry comes to, after some others. -/
structure Entry.Follows (earlier : List Entry) (e : Entry) : Prop where
  /-- It takes place in an engine that exists. -/
  engine : e.engine < e.before.engines.size
  /-- It takes place at a site that exists. -/
  site : 0 < e.site ∧ e.site ≤ e.before.sites.sites.size
  /-- A call has a cause to enter the linker, and the linker runs. -/
  entered : ∃ m m₀ m' : Machine, e.before = m ∧ e.after = m' ∧
    Relinks m e.engine e.site e.callee e.args m₀ ∧
    (enter (.of m) e.engine e.site e.callee e.args).run.run m₀ = (e.result, m')
  /-- Since the entry before it no site and no counter of linking has changed. -/
  since : (lastState Entry.after .empty earlier).Idles e.before
  /-- It publishes a link as a whole, or leaves its site as it was, and is counted. -/
  allOrNothing : e.AllOrNothing

theorem Entry.Occurs.follows {m m' : Machine} {e : Entry} {earlier : List Entry}
    (hearlier : Enters .empty earlier m) (h : Occurs m e m') : e.Follows earlier := by
  obtain ⟨m₀, hrelinks, hrun⟩ := h.run
  have hbefore := h.before
  exact ⟨hbefore ▸ h.engine, hbefore ▸ h.site, ⟨m, m₀, m', hbefore, h.after, hrelinks, hrun⟩,
    hbefore ▸ hearlier.idles, h.allOrNothing (hearlier.housed Machine.housed_empty)⟩

end Linking

/-- **Linking is all or nothing, and all of it is counted.**  Whatever a host does but link a site
by hand, each of the entries into the linker that this leads to publishes a link as a whole or
leaves its site as it was (`Linking.Entry.Follows`).  At the end, and before and after each entry,
every entry is counted under its cause and under its ending, and engines and sites agree; in
between nothing is linked.  What the linker does is what is remembered of it. -/
theorem accounted_of_deeds {deeds : List Deed} (hvalid : Deed.AllValid .empty deeds)
    (hcalls : ∀ d ∈ deeds, d.isLink = false) :
    let m := Deed.run .empty deeds
    Linking.Accounted m.entries.get m ∧
    (lastState Linking.Entry.after .empty m.entries.get).Idles m ∧
    (∀ earlier e later, m.entries.get = earlier ++ e :: later →
      e.Follows earlier ∧ Linking.Accounted earlier e.before ∧
        Linking.Accounted (earlier ++ [e]) e.after) ∧
    ∀ before engine id callee args result m',
      (Linking.enter before engine id callee args).run.run m = (result, m') →
      m'.entries.get = m.entries.get ++ [⟨engine, id, callee, args, result, before.get, m'⟩] := by
  intro m
  have hlog : Linking.Enters .empty m.entries.get m := Linking.Enters.of_deeds hvalid hcalls
  refine ⟨hlog.accounted, hlog.idles, fun earlier e later hsplit => ?_, ?_⟩
  · obtain ⟨m₁, m₂, hearlier, hoccurs⟩ := hlog.upTo hsplit
    refine ⟨hoccurs.follows hearlier, ?_, ?_⟩
    · rw [hoccurs.before]
      exact Linking.Enters.accounted hearlier
    · rw [hoccurs.after]
      exact Linking.Enters.accounted (hearlier.event hoccurs)
  · intro before engine id callee args result m' hrun
    obtain ⟨-, -, -, -, hentries⟩ := Linking.Links.of_enter (hlog.housed Machine.housed_empty) hrun
    exact hentries

/-- A function that calls its first argument with its second is called through a site: with nil,
which cannot be called, and with a function, which can.  Then a host function is called through
the same site, with arguments that it takes and with others. -/
def Deed.callThrough : List Deed :=
  [.operate (.addPrototype "id" ["x"] [] [] [.ret [.slot 0]]),
    .operate (.addPrototype "apply" ["f", "x"] [] [] [.ret [.call (.slot 0) [.slot 1]]]),
    .operate (.addEngine ⟨5, 1, 8⟩),
    .operate (.addFunction "id" (.closure ⟨⟨1, "id"⟩, [], 0⟩)),
    .operate (.addFunction "apply" (.closure ⟨⟨2, "apply"⟩, [], 0⟩)),
    .operate (.addFunction "h" (.host [⟨[.exact .integer, .any], .echo⟩])),
    .operate (.addSite [.unknown, .unknown] false),
    .operate (.call 3 (.site 0 1 (.function ⟨1, "apply"⟩) [.nil, .int 7])),
    .operate (.call 3 (.site 0 1 (.function ⟨1, "apply"⟩) [.function ⟨0, "id"⟩, .int 7])),
    .operate (.call 3 (.site 0 1 (.function ⟨2, "h"⟩) [.int 7, .nil])),
    .operate (.call 3 (.site 0 1 (.function ⟨2, "h"⟩) [.nil, .nil]))]

theorem Deed.allValid_callThrough : AllValid .empty callThrough := by
  refine ⟨trivial, trivial, trivial, ?_, ?_, ?_, trivial, ?_, ?_, ?_, ?_, trivial⟩
  · rintro _ ⟨⟩
    show 0 < _
    decide +kernel
  · rintro _ ⟨⟩
    show 0 < _
    decide +kernel
  · rintro _ ⟨⟩
  · show 0 < _ ∧ 0 < 1 ∧ 1 ≤ _
    decide +kernel
  · show 0 < _ ∧ 0 < 1 ∧ 1 ≤ _
    decide +kernel
  · show 0 < _ ∧ 0 < 1 ∧ 1 ≤ _
    decide +kernel
  · show 0 < _ ∧ 0 < 1 ∧ 1 ≤ _
    decide +kernel

/-- Three links are published, two of them at the first site, one overload is called once, and
the linker gives up twice. -/
theorem accounted_of_deeds_callThrough :
    let m := Deed.run .empty Deed.callThrough
    Deed.AllValid .empty Deed.callThrough ∧ (∀ d ∈ Deed.callThrough, d.isLink = false) ∧
      m.engines.toList.map Engine.stats = [⟨3, 3, 1, 1, 2⟩] ∧
      m.sites.sites.toList.map (fun site => site.history.relinks) = [2, 0, 1] ∧
      m.entries.get.countP (fun e => e.engine == 0) =
        m.entries.get.countP (fun e => e.engine == 0 && e.unlinked) + 3 ∧
      m.entries.get.countP (fun e => e.engine == 0) =
        4 + m.entries.get.countP (fun e => e.engine == 0 && e.failed) ∧
      Linking.Accounted m.entries.get m ∧
      ∀ earlier e later, m.entries.get = earlier ++ e :: later → e.Follows earlier := by
  intro m
  have hcalls : ∀ d ∈ Deed.callThrough, d.isLink = false := by decide +kernel
  have haccount : Linking.Accounted m.entries.get m ∧
      ∀ earlier e later, m.entries.get = earlier ++ e :: later → e.Follows earlier := by
    obtain ⟨haccount, -, hentries, -⟩ := accounted_of_deeds Deed.allValid_callThrough hcalls
    exact ⟨haccount, fun earlier e later hsplit => (hentries earlier e later hsplit).1⟩
  have hstats : m.engines.toList.map Engine.stats = [⟨3, 3, 1, 1, 2⟩] := by decide +kernel
  have hengine : (m.engine 0).stats = ⟨3, 3, 1, 1, 2⟩ := by decide +kernel
  have hsites : m.sites.sites.toList.map (fun site => site.history.relinks) = [2, 0, 1] := by
    decide +kernel
  clear_value m
  have hcauses := haccount.1.causes 0
  have hendings := haccount.1.endings 0
  rw [hengine] at hcauses hendings
  exact ⟨Deed.allValid_callThrough, hcalls, hstats, hsites, hcauses, hendings, haccount⟩

end AdaptiveScript
