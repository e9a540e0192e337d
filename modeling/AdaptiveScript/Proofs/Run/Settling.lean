import AdaptiveScript.Proofs.Run.Computing

/-!
# Relinking stops

A call site that is only ever called with closures of one prototype, and with arguments of
its static types, is linked a bounded number of times.  A site passes through two stages.
At first every link binds one function.  After as many links as the limit allows, a link
binds all closures of the prototype, so no guard fails any more; from then on the linker is
entered only when a target turns the arguments down.

Code for static types never does that, since the arguments have them.  Code for run-time
types does so only if the arguments have other types than those of the last link.  So every
such link counts as a change of types, and after as many changes as the limit allows the
types of arguments are no longer trusted; one more link, for the static types, is the last.

* `Linking.Site.Settles`: the two stages, with what each says about the counters.
* `Linking.relinks_of_regular`: the bound, and what happens once it is reached.
-/

namespace AdaptiveScript

/-! ## Regular calls -/

/-- A call with a closure of one prototype, which has the cells and the values of declared
upvalues that it should have, and with arguments of static types. -/
structure SiteCall.Regular (config : Config) (static : List Ty) (proto : Prototype)
    (call : SiteCall) : Prop where
  config_eq : call.config = config
  closure : ∃ c, call.moment.heap.closure? call.callee = some c ∧ c.proto.id = proto.ref.id ∧
    c.cells.length = proto.upvalues.size ∧
    ∀ (i : Nat) (template : UpvalueTemplate) (cell : CellId) (type : Ty),
      proto.upvalues[i]? = some template → c.cells[i]? = some cell →
      template.knownType = some type →
      type.admits call.moment.shapes call.moment.heap (call.moment.heap.cell cell) = true
  length : call.args.length = static.length
  args : ∀ (i : Nat) (type : Ty) (v : Value), static[i]? = some type → call.args[i]? = some v →
    type.admits call.moment.shapes call.moment.heap v = true

section Regular

variable {m : Machine} {engine : EngineId} {id : SiteId} {callee : Value} {args : List Value}
  {config current : Config} {static : List Ty} {proto : Prototype}

/-- The arguments of a regular call that is made now have the static types. -/
theorem SiteCall.Regular.admitsAll
    (h : (SiteCall.mk m.moment engine current id callee args).Regular config static proto) :
    m.AdmitsAll static args :=
  ⟨h.length, h.args⟩

/-- The callee of a regular call that is made now. -/
theorem SiteCall.Regular.exists_closure
    (h : (SiteCall.mk m.moment engine current id callee args).Regular config static proto) :
    ∃ ref c, callee = .function ref ∧ m.heap.closureOf? ref = some c ∧
      c.proto.id = proto.ref.id ∧
      (m.program.prototype? c.proto = some proto → c.Keeps m proto) := by
  obtain ⟨c, hclosure, hid, hlength, hdeclared⟩ := h.closure
  change m.heap.closure? callee = some c at hclosure
  cases callee with
  | function ref => exact ⟨ref, c, rfl, hclosure, hid, fun hproto => ⟨hproto, hlength, hdeclared⟩⟩
  | _ => cases hclosure

end Regular

/-- All calls through a site so far were regular. -/
structure Machine.Uniform (m : Machine) (id : SiteId) (config : Config) (static : List Ty)
    (proto : Prototype) : Prop where
  prototype : ∀ {ref : PrototypeRef} {other : Prototype}, ref.id = proto.ref.id →
    m.program.prototype? ref = some other → other = proto
  static_eq : ∀ {types : List Ty} {truncate : Bool}, m.sites.Has id types truncate →
    types = static
  calls : ∀ {call : SiteCall}, m.calls call → call.site = id → call.Regular config static proto

theorem Machine.Uniform.of_calls {m : Machine} (h : m.Sound) {id : Nat} {config : Config}
    {static : List Ty} {truncate : Bool} (hsite : m.sites.Has id static truncate)
    {ref : PrototypeRef} {proto : Prototype} (hproto : m.program.prototype? ref = some proto)
    (hcalls : ∀ call, m.calls call → call.site = id → call.Regular config static proto) :
    m.Uniform id config static proto where
  prototype {other _} hid hother := by
    rw [h.knowledge.inScope.id_eq_of_prototype? hproto] at hid
    rw [Program.prototype?, hid, ← Program.prototype?, hproto] at hother
    exact (Option.some.inj hother).symm
  static_eq hother := hother.static_eq.symm.trans hsite.static_eq
  calls hcall hid := hcalls _ hcall hid

theorem Machine.SiteStep.uniform {id : Nat} {m m' : Machine} (hstep : SiteStep id m m')
    {config : Config} {static : List Ty} {proto : Prototype}
    (h : m'.Uniform id config static proto) : m.Uniform id config static proto where
  prototype hid hother := h.prototype hid (hstep.advances.grows.program.prototype? hother)
  static_eq hsite := h.static_eq (hstep.advances.grows.sites hsite)
  calls hcall hid := h.calls (hstep.calls hcall) hid

namespace Linking

/-! ## Stages -/

/-- How many links a site may have whose last link took its types from a source. -/
def TypeSource.linkBound (config : Config) (typeChanges : Nat) : TypeSource → Nat
  | .static => config.relinkLimit + 1
  | .runtime => config.relinkLimit + 1 + typeChanges
  | .generic => config.relinkLimit + max config.typeChangeLimit 1 + 2

/-- How many links a site may have. -/
def linkBound (config : Config) (static : List Ty) : Nat :=
  if static.all Ty.isKnown then config.relinkLimit + 1
  else config.relinkLimit + max config.typeChangeLimit 1 + 2

/-- What the counters of a site say whose last link took its types from a source. -/
structure Site.Counts (config : Config) (source : TypeSource) (types : List Ty) (site : Site) :
    Prop where
  known : source = .static ↔ site.static.all Ty.isKnown = true
  types_eq : source ≠ .runtime → types = site.static
  relinks_le : site.history.relinks ≤
    TypeSource.linkBound config site.history.typeChanges source
  changes_le : source = .runtime → site.history.typeChanges ≤ max config.typeChangeLimit 1

/-- A site is linked for all closures of a prototype, by code for some types. -/
structure Site.Late (shapes : Shapes) (config : Config) (proto : Prototype)
    (spec : Specialization) (source : TypeSource) (types : List Ty) (site : Site) : Prop where
  link : site.link = some ⟨.prototype proto.ref.id, .prototype spec⟩
  last : site.history.last = some (source, types)
  args : spec.signature.args.map (Ty.canonical shapes) =
    (Signature.fitArgs proto.paramCount types).map (Ty.canonical shapes)
  counts : site.Counts config source types

/-- How far a site has come that is called regularly. -/
structure Site.Settles (shapes : Shapes) (config : Config) (proto : Prototype) (site : Site) :
    Prop where
  trust : site.history.trusting = true →
    site.history.typeChanges < max config.typeChangeLimit 1
  stage : site.history.relinks ≤ config.relinkLimit ∨
    ∃ spec source types, site.Late shapes config proto spec source types

namespace Site

variable {shapes : Shapes} {config : Config} {proto : Prototype} {site : Site}
  {spec : Specialization} {source : TypeSource} {types : List Ty}

theorem settles_fresh (static : List Ty) (truncate : Bool) :
    (fresh static truncate).Settles shapes config proto :=
  ⟨fun _ => Nat.lt_of_lt_of_le Nat.one_pos (Nat.le_max_right _ _), .inl (Nat.zero_le _)⟩

theorem Late.mono {after : Shapes} (hg : shapes.Grows after) (hb : shapes.Forest)
    (ha : after.Forest) (h : site.Late shapes config proto spec source types) :
    site.Late after config proto spec source types :=
  { h with args := Ty.map_canonical_congr hg hb ha h.args }

theorem Settles.mono {after : Shapes} (hg : shapes.Grows after) (hb : shapes.Forest)
    (ha : after.Forest) (h : site.Settles shapes config proto) :
    site.Settles after config proto := by
  refine ⟨h.trust, h.stage.imp_right ?_⟩
  rintro ⟨spec, source, types, hlate⟩
  exact ⟨spec, source, types, hlate.mono hg hb ha⟩

theorem Counts.relinks_le_linkBound (h : site.Counts config source types) :
    site.history.relinks ≤ linkBound config site.static := by
  have hle := h.relinks_le
  unfold linkBound
  cases source with
  | static =>
    rw [if_pos (h.known.mp rfl)]
    exact hle
  | runtime =>
    rw [if_neg fun hall => by cases h.known.mpr hall]
    have := h.changes_le rfl
    simp only [TypeSource.linkBound] at hle
    omega
  | generic =>
    rw [if_neg fun hall => by cases h.known.mpr hall]
    exact hle

/-- The counter of links stays within the bound. -/
theorem Settles.relinks_le (h : site.Settles shapes config proto) :
    site.history.relinks ≤ linkBound config site.static := by
  rcases h.stage with hearly | ⟨spec, source, types, hlate⟩
  · refine Nat.le_trans hearly ?_
    unfold linkBound
    split <;> omega
  · exact hlate.counts.relinks_le_linkBound

/-- A site that has as many links as it may have is linked for all closures of the
prototype, and not for run-time types. -/
theorem Settles.late_of_eq (h : site.Settles shapes config proto)
    (heq : site.history.relinks = linkBound config site.static) :
    ∃ spec source types, site.Late shapes config proto spec source types ∧
      source ≠ .runtime := by
  rcases h.stage with hearly | ⟨spec, source, types, hlate⟩
  · unfold linkBound at heq
    split at heq <;> omega
  · refine ⟨spec, source, types, hlate, ?_⟩
    rintro rfl
    have hle := hlate.counts.relinks_le
    have hchanges := hlate.counts.changes_le rfl
    have hunknown : ¬ site.static.all Ty.isKnown = true := fun hall => by
      cases hlate.counts.known.mpr hall
    rw [linkBound, if_neg hunknown] at heq
    simp only [TypeSource.linkBound] at hle
    omega

end Site

/-! ## Publishing a link -/

theorem trust_record {history : History} {config : Config}
    (h : history.trusting = true → history.typeChanges < max config.typeChangeLimit 1)
    (plan : Plan) (guard : GuardKind)
    (htrusting : (history.record config plan guard).trusting = true) :
    (history.record config plan guard).typeChanges < max config.typeChangeLimit 1 := by
  simp only [History.record, Bool.and_eq_true, Bool.not_eq_true', Bool.and_eq_false_iff,
    decide_eq_false_iff_not, Nat.not_le] at htrusting ⊢
  obtain ⟨hbefore, hchange⟩ := htrusting
  have hlt := h hbefore
  cases hchanged : history.isChange plan with
  | false => simpa [hchanged] using hlt
  | true =>
    rw [hchanged] at hchange
    simp only [Bool.true_eq_false, false_or, if_true] at hchange
    simp only [if_true]
    omega

/-- What a plan takes its types from. -/
theorem plan_cases (history : History) (config : Config) (static runtime : List Ty) :
    let planned := plan history config static runtime
    (static.all Ty.isKnown = true ∧ planned.source = .static ∧ planned.types = static) ∨
    (¬ static.all Ty.isKnown = true ∧ history.trusting = true ∧ planned.source = .runtime ∧
      planned.types = runtime) ∨
    (¬ static.all Ty.isKnown = true ∧ planned.source = .generic ∧ planned.types = static) := by
  unfold plan
  by_cases hknown : static.all Ty.isKnown = true
  · rw [if_pos hknown]
    exact .inl ⟨hknown, rfl, rfl⟩
  · rw [if_neg hknown]
    by_cases htrusting : history.trusting = true
    · rw [if_pos htrusting]
      exact .inr (.inl ⟨hknown, htrusting, rfl, rfl⟩)
    · rw [if_neg htrusting]
      exact .inr (.inr ⟨hknown, rfl, rfl⟩)

theorem typeChanges_record_of_isChange {history : History} {plan : Plan}
    (h : history.isChange plan = true) (config : Config) (guard : GuardKind) :
    (history.record config plan guard).typeChanges = succ32 history.typeChanges := by
  simp [History.record, h]

theorem typeChanges_record_le (history : History) (config : Config) (plan : Plan)
    (guard : GuardKind) :
    (history.record config plan guard).typeChanges ≤ history.typeChanges + 1 := by
  simp only [History.record, succ32]
  split <;> omega

section Publish

variable {shapes : Shapes} {config : Config} {proto : Prototype} {site : Site}
  {runtime : List Ty}

/-- The counters after a link that no longer binds one function.  Before it, the site has no
more links than the limit for those allows, or the last link was made for other run-time
types. -/
theorem Site.Settles.counts_publish (h : site.Settles shapes config proto)
    (hlate : ∀ {spec source types}, site.Late shapes config proto spec source types →
      source = .runtime ∧ types ≠ runtime) (link : Link) :
    let planned := plan site.history config site.static runtime
    (site.publish config planned link).Counts config planned.source planned.types := by
  intro planned
  have hrelinks : (site.publish config planned link).history.relinks =
    succ32 site.history.relinks := rfl
  have hchanges : (site.publish config planned link).history.typeChanges ≤
    site.history.typeChanges + 1 := typeChanges_record_le _ _ _ _
  rcases plan_cases site.history config site.static runtime with
    ⟨hknown, hsource, htypes⟩ | ⟨hunknown, htrusting, hsource, htypes⟩ | ⟨hunknown, hsource, htypes⟩
  · refine ⟨by simp [planned, hsource, hknown, publish], fun _ => htypes, ?_, by
      simp [planned, hsource]⟩
    rw [hrelinks, show planned.source = .static from hsource, succ32, TypeSource.linkBound]
    rcases h.stage with hearly | ⟨spec, source, types, hbefore⟩
    · omega
    · -- static types would still be those of the link
      obtain ⟨rfl, -⟩ := hlate hbefore
      cases hbefore.counts.known.mpr hknown
  · have hlt := h.trust htrusting
    refine ⟨by simp [planned, hsource, hunknown, publish], fun hne => absurd hsource hne, ?_,
      fun _ => by omega⟩
    rw [hrelinks, show planned.source = .runtime from hsource, TypeSource.linkBound]
    rcases h.stage with hearly | ⟨spec, source, types, hbefore⟩
    · rw [succ32]
      omega
    · obtain ⟨rfl, hne⟩ := hlate hbefore
      have hchange : site.history.isChange planned = true := by
        simp only [History.isChange, hbefore.last, bne_iff_ne, ne_eq]
        intro heq
        exact hne ((Prod.mk.inj heq).2.trans htypes)
      have hle : site.history.relinks ≤ config.relinkLimit + 1 + site.history.typeChanges :=
        hbefore.counts.relinks_le
      have hcounted : (site.publish config planned link).history.typeChanges =
          succ32 site.history.typeChanges := typeChanges_record_of_isChange hchange config _
      rw [hcounted, succ32, succ32]
      omega
  · refine ⟨by simp [planned, hsource, hunknown, publish], fun _ => htypes, ?_, by
      simp [planned, hsource]⟩
    rw [hrelinks, show planned.source = .generic from hsource, succ32, TypeSource.linkBound]
    rcases h.stage with hearly | ⟨spec, source, types, hbefore⟩
    · omega
    · obtain ⟨rfl, -⟩ := hlate hbefore
      have hle : site.history.relinks ≤ config.relinkLimit + 1 + site.history.typeChanges :=
        hbefore.counts.relinks_le
      have hchanges := hbefore.counts.changes_le rfl
      omega

/-- **The step.** A link is published at a site that is called regularly. -/
theorem Site.Settles.publish (hf : shapes.Forest) (h : site.Settles shapes config proto)
    {link : Link}
    (hlate : ∀ {spec source types}, site.Late shapes config proto spec source types →
      source = .runtime ∧ types ≠ runtime)
    (hmade : (plan site.history config site.static runtime).identity = false →
      ∃ spec, link = ⟨.prototype proto.ref.id, .prototype spec⟩ ∧ spec.signature.args =
        (Signature.fitArgs proto.paramCount
          (plan site.history config site.static runtime).types).map (Ty.canonical shapes)) :
    (site.publish config (plan site.history config site.static runtime) link).Settles shapes
      config proto := by
  refine ⟨trust_record h.trust _ _, ?_⟩
  by_cases hidentity : (plan site.history config site.static runtime).identity = true
  · have hlt := (identity_plan _ _ _ _).mp hidentity
    refine .inl ?_
    show succ32 site.history.relinks ≤ config.relinkLimit
    rw [succ32]
    omega
  · obtain ⟨spec, rfl, hargs⟩ := hmade (by simpa using hidentity)
    refine .inr ⟨spec, _, _, rfl, rfl, ?_, h.counts_publish hlate _⟩
    rw [hargs]
    exact Ty.map_canonical_canonical hf _

end Publish

/-! ## Calls through a site that is linked for all closures -/

/-- The types that the linker sees of the arguments admit them before it is entered. -/
theorem Relinks.admitsAll_typeOf {m m₀ : Machine} (h : m.Sound) {engine : EngineId} {id : SiteId}
    {callee : Value} {args : List Value} (hrelinks : Relinks m engine id callee args m₀) :
    m.AdmitsAll (args.map (m₀.typeOf engine)) args := by
  have hsound := (hrelinks.prepares h).sound
  have hadmits := Machine.admitsAll_typeOf hsound.forest hsound.laid engine args
  cases hrelinks <;> exact ⟨hadmits.length, hadmits.admits⟩

section Late

variable {m m₀ : Machine} (h : m.Sound) {id : Nat} {config current : Config} {static : List Ty}
  {proto : Prototype} (huniform : m.Uniform id config static proto) {spec : Specialization}
  {source : TypeSource} {types : List Ty}
  (hlate : (m.sites.get id).Late m.shapes config proto spec source types)
  {engine : EngineId} {callee : Value} {args : List Value}
  (hregular : (SiteCall.mk m.moment engine current id callee args).Regular config static proto)

include hregular

/-- The guard lets every regular callee pass. -/
theorem holds_of_regular : (Guard.prototype proto.ref.id).holds m.heap callee = true := by
  obtain ⟨ref, c, rfl, hclosure, hid, -⟩ := hregular.exists_closure
  rw [← hid]
  exact Guard.holds_prototype hclosure

include h huniform hlate

/-- The code takes arguments of the types that it was compiled for. -/
theorem begin_of_late (htypes : m.AdmitsAll types args) :
    ∃ start, (Target.prototype spec).begin m callee args = .ok start := by
  obtain ⟨ref, c, rfl, hclosure, hid, hkeeps⟩ := hregular.exists_closure
  cases h.links id _ hlate.link with
  | prototype _ hspec _ hproto hupvalues =>
    cases huniform.prototype hspec hproto
    have hsame : m.program.prototype? c.proto = some proto := by
      rw [← hproto, Program.prototype?, Program.prototype?, hspec, hid]
    have hkept := hkeeps hsame
    refine Target.Accepts.begin ⟨c, hclosure, ?_⟩
    refine Specialization.passes_of_canonical h.forest proto.paramCount hlate.args hupvalues htypes
      ?_ fun i type cell => hkept.admits_static
    rw [hkept.length]
    simp [Prototype.staticUpvalueTypes]

/-- The linker is entered only for run-time types that are not those of the last link. -/
theorem runtime_of_relinks (hstatic : (m.sites.get id).static = static)
    (hrelinks : Relinks m engine id callee args m₀) :
    source = .runtime ∧ types ≠ args.map (m₀.typeOf engine) := by
  have hholds := holds_of_regular hregular
  have hseen := hrelinks.admitsAll_typeOf h
  cases hrelinks with
  | unlinked hnone =>
    rw [hlate.link] at hnone
    cases hnone
  | guardFailed hlink hguard =>
    rw [hlate.link] at hlink
    cases hlink
    rw [hholds] at hguard
    cases hguard
  | rejected hlink _ hbegin =>
    rw [hlate.link] at hlink
    cases hlink
    have hnot : ¬ m.AdmitsAll types args := fun htypes => by
      obtain ⟨start, hstart⟩ := begin_of_late h huniform hlate hregular htypes
      rw [hbegin] at hstart
      cases hstart
    constructor
    · refine Classical.byContradiction fun hne => hnot ?_
      rw [hlate.counts.types_eq hne, hstatic]
      exact hregular.admitsAll
    · rintro rfl
      exact hnot hseen

end Late

/-! ## Runs -/

section Runs

variable {id : Nat} {m m' : Machine} {config : Config} {static : List Ty} {proto : Prototype}

theorem Relinks.uniform {m₀ : Machine} {engine : EngineId} {callee : Value} {args : List Value}
    (hrelinks : Relinks m engine id callee args m₀) (h : m.Uniform id config static proto) :
    m₀.Uniform id config static proto := by
  cases hrelinks <;> exact ⟨h.prototype, h.static_eq, h.calls⟩

/-- A link for a regular callee that does not bind it alone binds all closures of the
prototype. -/
theorem Link.Made.prototype_of_regular (huniform : m.Uniform id config static proto)
    {truncate : Bool} {plan : Plan} {engine : EngineId} {callee : Value} {args : List Value}
    {link : Link} {current : Config}
    (hregular : (SiteCall.mk m.moment engine current id callee args).Regular config static proto)
    (hmade : link.Made m truncate plan callee) (hidentity : plan.identity = false) :
    ∃ spec, link = ⟨.prototype proto.ref.id, .prototype spec⟩ ∧ spec.signature.args =
      (Signature.fitArgs proto.paramCount plan.types).map (Ty.canonical m.shapes) := by
  obtain ⟨ref, c, rfl, hclosure, hid, -⟩ := hregular.exists_closure
  have hfunction := Heap.closureOf?_eq_some.mp hclosure
  cases hmade with
  | closure _ hyes =>
    rw [hidentity] at hyes
    cases hyes
  | @«prototype» _ c' _ spec hclosure' _ hproto hsignature =>
    rw [hclosure] at hclosure'
    cases hclosure'
    cases huniform.prototype hid hproto
    refine ⟨spec, by rw [hid], ?_⟩
    rw [hsignature]
    rfl
  | host hhost =>
    rw [hfunction] at hhost
    cases hhost
  | foreign hforeign =>
    rw [hfunction] at hforeign
    cases hforeign

/-- **The step.** What happens at a site that is called regularly. -/
theorem settles_of_siteStep (hm : m.Sound) (hstep : Machine.SiteStep id m m')
    (huniform : m'.Uniform id config static proto)
    (h : (m.sites.get id).Settles m.shapes config proto) :
    (m'.sites.get id).Settles m'.shapes config proto := by
  have hbefore := hstep.uniform huniform
  have hforest := hstep.advances.sound.forest
  have hkept := h.mono hstep.advances.grows.shapes hm.forest hforest
  cases hstep with
  | spared _ _ hspared =>
    rcases hspared with hsame | ⟨-, static, truncate, hfresh⟩
    · rw [hsame]
      exact hkept
    · rw [hfresh]
      exact Site.settles_fresh static truncate
  | @relinked m₀ _ engine _ _ callee args _ _ hadvances hsite hcall hrelinks hrun =>
    have hregular := hbefore.calls hcall rfl
    have hquiet (hquiet : m₀.Quiet m') : (m'.sites.get id).Settles m'.shapes config proto := by
      rw [hquiet.sites.get_eq (by rw [hrelinks.sites]; exact hsite.le), hrelinks.sites]
      exact hkept
    have heffect := hrelinks.effect hm hsite hrun
    rw [show (m.engine engine).config = config from hregular.config_eq] at heffect
    cases heffect with
    | failed hfailed => exact hquiet hfailed
    | once _ honce => exact hquiet honce
    | published hmade hpublishes =>
      rw [hpublishes.site, hrelinks.config, hrelinks.sites,
        show (m.engine engine).config = config from hregular.config_eq]
      refine Site.Settles.mono hadvances.grows.shapes hm.forest hforest
        (h.publish hm.forest ?_ fun hidentity => ?_)
      · intro spec source types hlate
        exact runtime_of_relinks hm hbefore hlate hregular
          (hbefore.static_eq ⟨hsite.pos, hsite.le, rfl, rfl⟩) hrelinks
      · have hshapes : m₀.shapes = m.shapes := by cases hrelinks <;> rfl
        have hregular₀ : (SiteCall.mk m₀.moment engine (m.engine engine).config id callee
            args).Regular config static proto := by
          cases hrelinks <;> exact hregular
        rw [← hshapes]
        exact hmade.prototype_of_regular (hrelinks.uniform hbefore) hregular₀ hidentity

/-- **The run.** A site that is called regularly goes on to settle. -/
theorem settles_of_siteSteps (hm : m.Sound) (hsteps : Machine.SiteSteps id m m')
    (huniform : m'.Uniform id config static proto)
    (h : (m.sites.get id).Settles m.shapes config proto) :
    (m'.sites.get id).Settles m'.shapes config proto := by
  induction hsteps with
  | refl => exact h
  | tail hbefore hstep ih =>
    exact settles_of_siteStep (Machine.SiteSteps.advances hm hbefore).sound hstep huniform
      (ih (hstep.uniform huniform))

variable {spec : Specialization} {source : TypeSource} {types : List Ty}

/-- **The step.** A site that is settled stays as it is. -/
theorem get_of_siteStep (hm : m.Sound) (hstep : Machine.SiteStep id m m')
    (huniform : m'.Uniform id config static proto) (hsource : source ≠ .runtime)
    (hlate : (m.sites.get id).Late m.shapes config proto spec source types) :
    m'.sites.get id = m.sites.get id := by
  have hbefore := hstep.uniform huniform
  cases hstep with
  | spared _ _ hspared =>
    rcases hspared with hsame | ⟨hlt, -⟩
    · exact hsame
    · have hlink := hlate.link
      rw [Sites.get_of_size_lt hlt] at hlink
      cases hlink
  | relinked _ _ hsite hcall hrelinks _ =>
    have hstatic := hbefore.static_eq ⟨hsite.pos, hsite.le, rfl, rfl⟩
    exact absurd (runtime_of_relinks hm hbefore hlate (hbefore.calls hcall rfl) hstatic
      hrelinks).1 hsource

/-- **The run.** A site that is settled stays as it is. -/
theorem get_of_siteSteps (hm : m.Sound) (hsteps : Machine.SiteSteps id m m')
    (huniform : m'.Uniform id config static proto) (hsource : source ≠ .runtime)
    (hlate : (m.sites.get id).Late m.shapes config proto spec source types) :
    m'.sites.get id = m.sites.get id := by
  induction hsteps with
  | refl => rfl
  | tail hbefore hstep ih =>
    have hsame := ih (hstep.uniform huniform)
    have hadvances := Machine.SiteSteps.advances hm hbefore
    have hlate' := hlate.mono hadvances.grows.shapes hm.forest hadvances.sound.forest
    rw [← hsame] at hlate'
    exact (get_of_siteStep hadvances.sound hstep huniform hsource hlate').trans hsame

end Runs

/-! ## Calls through a settled site -/

/-- A call is taken by the link in place: nothing happens before the code is started, except
that the call is remembered. -/
def InPlace (m : Machine) (engine : EngineId) (id : SiteId) (callee : Value)
    (args : List Value) : Prop :=
  ∃ link start, (m.sites.get id).link = some link ∧ link.guard.holds m.heap callee = true ∧
    link.target.begin m callee args = .ok start ∧
    ∀ again rounds, (invoke again rounds engine id callee args).run.run m =
      (start.run again rounds engine args).run.run (m.recordCall engine id callee args)

/-- A call is taken by a new link. -/
def Anew (m : Machine) (engine : EngineId) (id : SiteId) (callee : Value) (args : List Value) :
    Prop :=
  ∃ (start : Start) (m₁ : Machine),
    (m₁.sites.get id).history.relinks = succ32 (m.sites.get id).history.relinks ∧
    ∀ again rounds, (invoke again rounds engine id callee args).run.run m =
      (start.run again rounds engine args).run.run m₁

section Calls

variable {id : Nat} {m : Machine} {config : Config} {static : List Ty} {proto : Prototype}
  (h : m.Sound) (huniform : m.Uniform id config static proto)
  (hsite : 0 < id ∧ id ≤ m.sites.sites.size) {engine : EngineId} {callee : Value}
  {args : List Value}
  (hregular : (SiteCall.mk m.moment engine (m.engine engine).config id callee args).Regular
    config static proto)

include huniform hregular in
theorem uniform_recordCall :
    (m.recordCall engine id callee args).Uniform id config static proto := by
  refine ⟨huniform.prototype, huniform.static_eq, fun hcall hid => ?_⟩
  rcases hcall with hold | rfl
  · exact huniform.calls hold hid
  · exact hregular

include h huniform hsite hregular

/-- Regular calls through a settled site are taken by the link in place. -/
theorem inPlace_of_late {spec : Specialization} {source : TypeSource} {types : List Ty}
    (hsource : source ≠ .runtime)
    (hlate : (m.sites.get id).Late m.shapes config proto spec source types) :
    InPlace m engine id callee args := by
  have hhas : m.sites.Has id (m.sites.get id).static (m.sites.get id).truncate :=
    ⟨hsite.1, hsite.2, rfl, rfl⟩
  have hrecord := Machine.Prepares.recordCall h engine id callee args
  have hnever {m₀ : Machine}
      (hrelinks : Relinks (m.recordCall engine id callee args) engine id callee args m₀) : False :=
    hsource (runtime_of_relinks hrecord.sound (uniform_recordCall huniform hregular) hlate hregular
      (huniform.static_eq hhas) hrelinks).1
  obtain ⟨result, m₁, hdispatch, -, heq⟩ := invoke_eq engine h hhas callee args
  cases hdispatch with
  | inPlace hlink hguard hbegin => exact ⟨_, _, hlink, hguard, hbegin, heq⟩
  | linked hrelinks => exact (hnever hrelinks).elim
  | refused hrelinks => exact (hnever hrelinks).elim
  | failed hrelinks => exact (hnever hrelinks).elim

/-- A regular call of a prototype that compiles is taken by the link in place or by a new
one. -/
theorem inPlace_or_anew (hbody : Stmt.BlockWellFormed m.program proto false proto.body)
    {ref : PrototypeRef} (hproto : m.program.prototype? ref = some proto)
    (hid : ref.id = proto.ref.id) :
    InPlace m engine id callee args ∨ Anew m engine id callee args := by
  have hhas : m.sites.Has id (m.sites.get id).static (m.sites.get id).truncate :=
    ⟨hsite.1, hsite.2, rfl, rfl⟩
  have hrecord := Machine.Prepares.recordCall h engine id callee args
  obtain ⟨function, c, rfl, hclosure, hclosureId, hkeeps⟩ := hregular.exists_closure
  have hsame : m.program.prototype? c.proto = some proto := by
    rw [← hproto, Program.prototype?, Program.prototype?, hclosureId, hid]
  have hfunction := Heap.closureOf?_eq_some.mp hclosure
  have hkept := hkeeps hsame
  have hkeeps : Keeps m (.function function) := fun closure hfound => by
    rw [show m.heap.closure? (.function function) = some c from hclosure] at hfound
    cases hfound
    exact ⟨proto, hkept⟩
  have hargs := hregular.admitsAll
  rw [← huniform.static_eq hhas] at hargs
  obtain ⟨result, m₁, hdispatch, -, heq⟩ := invoke_eq engine h hhas (.function function) args
  obtain ⟨start, rfl⟩ := hdispatch.exists_start hrecord.sound hhas ⟨hargs.length, hargs.admits⟩
    (hkeeps.mono h hrecord) (.closure hfunction ⟨hsame, hkept.length, hbody⟩)
  cases hdispatch with
  | inPlace hlink hguard hbegin => exact .inl ⟨_, _, hlink, hguard, hbegin, heq⟩
  | linked hrelinks hrun _ =>
    refine .inr ⟨start, m₁, ?_, heq⟩
    cases hrelinks.effect hrecord.sound hhas hrun with
    | once hhost _ =>
      rw [(hrelinks.prepares hrecord.sound).heap] at hhost
      change m.heap.function? function = _ at hhost
      rw [hfunction] at hhost
      cases hhost
    | published _ hpublishes =>
      rw [hpublishes.site, hrelinks.sites]
      rfl

end Calls

/-- **Relinking stops.**  Take a call site that is not linked by hand and through which only
closures of one prototype were called, with arguments of its static types and under one
configuration; calls within calls are among them.  Then the site has at most as many links
as the bound allows.  The next such call is taken by the link in place or by one new link,
if the prototype compiles.  And from the moment the bound is reached the site stays as it
is, and every such call is taken by the link in place. -/
theorem relinks_of_regular {m : Machine} {id : SiteId} {config : Config} {ref : PrototypeRef}
    {proto : Prototype} (hleads : Machine.Leads (Operation.Spares id) .empty m)
    (hsite : 0 < id ∧ id ≤ m.sites.sites.size)
    (hproto : m.program.prototype? ref = some proto)
    (hcalls : ∀ call, m.calls call → call.site = id →
      call.Regular config (m.sites.get id).static proto) :
    (m.sites.get id).history.relinks ≤ linkBound config (m.sites.get id).static ∧
    (Stmt.BlockWellFormed m.program proto false proto.body → ∀ engine callee args,
      (SiteCall.mk m.moment engine (m.engine engine).config id callee args).Regular config
        (m.sites.get id).static proto →
      InPlace m engine id callee args ∨ Anew m engine id callee args) ∧
    ((m.sites.get id).history.relinks = linkBound config (m.sites.get id).static →
      ∀ m', Machine.Leads (Operation.Spares id) m m' →
        (∀ call, m'.calls call → call.site = id →
          call.Regular config (m.sites.get id).static proto) →
        m'.sites.get id = m.sites.get id ∧ ∀ engine callee args,
          (SiteCall.mk m'.moment engine (m'.engine engine).config id callee args).Regular config
            (m.sites.get id).static proto →
          InPlace m' engine id callee args) := by
  have hsound := (hleads.advances Machine.sound_empty).sound
  have hhas : m.sites.Has id (m.sites.get id).static (m.sites.get id).truncate :=
    ⟨hsite.1, hsite.2, rfl, rfl⟩
  have huniform := Machine.Uniform.of_calls hsound hhas hproto hcalls
  have hsettles : (m.sites.get id).Settles m.shapes config proto := by
    refine settles_of_siteSteps Machine.sound_empty (hleads.siteSteps Machine.sound_empty)
      huniform ?_
    rw [Machine.site_empty]
    exact Site.settles_fresh [] false
  refine ⟨hsettles.relinks_le, fun hbody engine callee args hregular => ?_,
    fun heq m' hleads' hcalls' => ?_⟩
  · exact inPlace_or_anew hsound huniform hsite hregular hbody hproto
      (hsound.knowledge.inScope.id_eq_of_prototype? hproto).symm
  · obtain ⟨spec, source, types, hlate, hsource⟩ := hsettles.late_of_eq heq
    have hadvances := hleads'.advances hsound
    have hhas' := hadvances.grows.sites hhas
    have huniform' := Machine.Uniform.of_calls hadvances.sound hhas'
      (hadvances.grows.program.prototype? hproto) hcalls'
    have hsame := get_of_siteSteps hsound (hleads'.siteSteps hsound) huniform' hsource hlate
    refine ⟨hsame, fun engine callee args hregular => ?_⟩
    have hlate' := hlate.mono hadvances.grows.shapes hsound.forest hadvances.sound.forest
    rw [← hsame] at hlate'
    exact inPlace_of_late hadvances.sound huniform' ⟨hhas'.pos, hhas'.le⟩ hregular hsource hlate'

/-! ## An example -/

/-- The function that returns its argument. -/
def identity : Prototype :=
  .ofParts ⟨1, "id"⟩ ["x"] [] [] [.ret [.slot 0]]

/-- The function that returns its argument was called through a site, and nothing else was. -/
structure CallsIdentity (config : Config) (m : Machine) : Prop where
  leads : Machine.Leads (Operation.Spares 1) .empty m
  can : CanCompute m 1 [.unknown] false ⟨0, "id"⟩ ⟨⟨1, "id"⟩, [], 0⟩ identity
  regular : ∀ call, m.calls call → call.Regular config [.unknown] identity

namespace CallsIdentity

variable {config : Config} {m : Machine}

theorem start (config : Config) :
    CallsIdentity config (Operation.run .empty (Operation.makeIdentity config [.unknown])) := by
  have hleads : Machine.Leads (Operation.Spares 1) .empty
      (Operation.run .empty (Operation.makeIdentity config [.unknown])) :=
    .of_operations (by simp [Operation.makeIdentity, Operation.Spares])
      (Operation.allValid_makeIdentity config (by simp [Ty.Has]))
  exact ⟨hleads, ⟨(hleads.advances Machine.sound_empty).sound,
    ⟨Nat.one_pos, Nat.le_refl 1, rfl, rfl⟩, rfl, rfl, by decide⟩, fun _ hcall => hcall.elim⟩

/-- The next call is regular too. -/
theorem next (h : CallsIdentity config m) (hconfig : (m.engine 0).config = config) (v : Value) :
    (SiteCall.mk m.moment 0 (m.engine 0).config 1 (.function ⟨0, "id"⟩) [v]).Regular config
      [.unknown] identity := by
  refine ⟨hconfig, ⟨_, h.can.callee, rfl, rfl, fun i _ _ _ htemplate => ?_⟩, rfl,
    fun i type w htype _ => ?_⟩
  · simp [identity, Prototype.ofParts] at htemplate
  · obtain rfl : type = .unknown := by simpa using List.mem_of_getElem? htype
    exact Ty.admits_unknown _ _ w

theorem call (h : CallsIdentity config m) (hconfig : (m.engine 0).config = config) (v : Value) :
    CallsIdentity config
      ((Operation.call 1 (.site 0 1 (.function ⟨0, "id"⟩) [v])).apply m) := by
  refine ⟨.step h.leads trivial ⟨h.can.site.pos, h.can.site.le⟩, h.can.call 0 [v] 0,
    fun call hcall => ?_⟩
  rw [h.can.calls_call] at hcall
  rcases hcall with hbefore | rfl
  · exact h.regular call hbefore
  · exact h.next hconfig v

end CallsIdentity

/-- A site that binds no function alone, and through which the function that returns its argument
is called with an integer, a string and a float.  The float is taken by a new link, with which
the bound is reached, and the integer that follows by the link in place. -/
theorem relinks_of_regular_settled :
    let config := { Config.default with relinkLimit := 0, typeChangeLimit := 1 }
    let callee := Value.function ⟨0, "id"⟩
    let calling := fun v => Operation.call 1 (.site 0 1 callee [v])
    let m₂ := Operation.run .empty
      (Operation.makeIdentity config [.unknown] ++ [calling (.int 5), calling (.str "a")])
    let m₃ := (calling (.float 1.5)).apply m₂
    let m₄ := (calling (.int 6)).apply m₃
    Machine.Leads (Operation.Spares 1) .empty m₃ ∧ Machine.Leads (Operation.Spares 1) m₃ m₄ ∧
      (∀ call, m₄.calls call → call.Regular config [.unknown] identity) ∧
      Anew m₂ 0 1 callee [.float 1.5] ∧
      (m₃.sites.get 1).history.relinks = linkBound config [.unknown] ∧
      InPlace m₃ 0 1 callee [.int 6] ∧ m₄.sites.get 1 = m₃.sites.get 1 := by
  intro config callee calling m₂ m₃ m₄
  have h₀ := CallsIdentity.start config
  have h₁ := h₀.call rfl (.int 5)
  have hconfig₂ : (m₂.engine 0).config = config := by decide +kernel
  have hconfig₃ : (m₃.engine 0).config = config := by decide +kernel
  have h₂ : CallsIdentity config m₂ := h₁.call (by decide +kernel) (.str "a")
  have h₃ : CallsIdentity config m₃ := h₂.call hconfig₂ (.float 1.5)
  have h₄ : CallsIdentity config m₄ := h₃.call hconfig₃ (.int 6)
  have hrejected : (m₂.sites.get 1).link.all (fun link =>
    !(link.target.begin m₂ callee [.float 1.5]).isOk) = true := by decide +kernel
  have hfull : (m₃.sites.get 1).history.relinks = 3 := by decide +kernel
  have hleads₄ : Machine.Leads (Operation.Spares 1) m₃ m₄ :=
    .step (.refl m₃) trivial ⟨h₃.can.site.pos, h₃.can.site.le⟩
  clear_value m₄ m₃ m₂
  have hregular {m : Machine} (h : CallsIdentity config m) : ∀ call, m.calls call →
      call.site = 1 → call.Regular config (m.sites.get 1).static identity := by
    intro call hcall _
    rw [h.can.site.static_eq]
    exact h.regular call hcall
  obtain ⟨-, hnext, -⟩ := relinks_of_regular h₂.leads ⟨h₂.can.site.pos, h₂.can.site.le⟩
    h₂.can.prototype (hregular h₂)
  obtain ⟨-, -, hsettled⟩ := relinks_of_regular h₃.leads ⟨h₃.can.site.pos, h₃.can.site.le⟩
    h₃.can.prototype (hregular h₃)
  rw [h₂.can.site.static_eq] at hnext
  rw [h₃.can.site.static_eq] at hsettled
  obtain ⟨hsame, -⟩ := hsettled hfull m₄ hleads₄ fun call hcall _ => h₄.regular call hcall
  obtain ⟨-, hplace⟩ := hsettled hfull m₃ (.refl m₃) fun call hcall _ => h₃.regular call hcall
  refine ⟨h₃.leads, hleads₄, h₄.regular, ?_, hfull, ?_, hsame⟩
  · rcases hnext ⟨⟨Nat.one_pos, trivial⟩, trivial⟩ 0 callee [.float 1.5] (h₂.next hconfig₂ _) with
      ⟨link, start, hlink, -, hbegin, -⟩ | hanew
    · rw [hlink, Option.all_some, hbegin] at hrejected
      cases hrejected
    · exact hanew
  · exact hplace 0 callee [.int 6] (h₃.next hconfig₃ _)

end Linking
end AdaptiveScript
