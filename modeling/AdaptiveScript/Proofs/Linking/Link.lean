import AdaptiveScript.Proofs.Linking.Check
import AdaptiveScript.Proofs.Machine.Compilation

/-!
# What the linker gives

The linker chooses a target for a callee.  Whatever its plan, the target is one that the
callee may run (`Linking.Link.Valid`, with a guard that lets the callee pass).  If the
arguments have the static types of the site, and the closure called keeps what its prototype
declares, the target also takes these arguments (`Linking.Target.Accepts`).

The reason is that every type in a signature comes from one of three places, and admits the
value it is checked against in each case: a static type of the site, the type that the
engine sees of the value, or a type that the prototype declares.
-/

namespace AdaptiveScript

/-! ## Types of upvalues -/

/-- A closure has its prototype, one cell per upvalue, and in each cell a value of the type
declared for it. -/
structure Closure.Keeps (c : Closure) (m : Machine) (proto : Prototype) : Prop where
  prototype : m.program.prototype? c.proto = some proto
  length : c.cells.length = proto.upvalues.size
  declared : ∀ (i : Nat) (template : UpvalueTemplate) (cell : CellId) (type : Ty),
    proto.upvalues[i]? = some template → c.cells[i]? = some cell →
    template.knownType = some type → m.Admits type (m.heap.cell cell)

theorem Prototype.getElem?_staticUpvalueTypes (proto : Prototype) (i : Nat) :
    proto.staticUpvalueTypes[i]? = proto.upvalues[i]?.map UpvalueTemplate.staticType := by
  simp [Prototype.staticUpvalueTypes]

namespace Linking

theorem length_identityUpvalueTypes (registry : Registry) (heap : Heap) {proto : Prototype}
    {cells : List CellId} (h : cells.length = proto.upvalues.size) :
    (identityUpvalueTypes registry heap proto cells).length = proto.upvalues.size := by
  simp [identityUpvalueTypes, h]

/-- Where the upvalue types of one closure come from. -/
theorem identityUpvalueTypes_cases {registry : Registry} {heap : Heap} {proto : Prototype}
    {cells : List CellId} {i : Nat} {type : Ty}
    (h : (identityUpvalueTypes registry heap proto cells)[i]? = some type) :
    ∃ template cell, proto.upvalues[i]? = some template ∧ cells[i]? = some cell ∧
      (template.knownType = some type ∨
        template.isSealed = true ∧ type = Ty.ofValue registry heap (heap.cell cell) ∨
        type = .unknown) := by
  unfold identityUpvalueTypes at h
  rw [List.getElem?_zipWith_eq_some] at h
  obtain ⟨template, cell, htemplate, hcell, htype⟩ := h
  refine ⟨template, cell, by simpa using htemplate, hcell, ?_⟩
  cases hknown : template.knownType with
  | some declared =>
    rw [hknown] at htype
    exact .inl (congrArg some htype)
  | none =>
    rw [hknown] at htype
    dsimp only at htype
    split at htype
    · next hsealed => exact .inr (.inl ⟨hsealed, htype.symm⟩)
    · exact .inr (.inr htype.symm)

end Linking

/-! ## Arguments of a signature -/

/-- Arguments have their types ever after. -/
theorem Machine.AdmitsAll.mono {m m' : Machine} (h : m.Sound) (hprep : m.Prepares m')
    {types : List Ty} {args : List Value} (hhas : ∀ type ∈ types, type.Has m.shapes)
    (hargs : m.AdmitsAll types args) : m'.AdmitsAll types args := by
  refine ⟨hargs.length, fun i type v htype hv => ?_⟩
  exact h.admits hprep.sound hprep.evolves.grows (hhas type (List.mem_of_getElem? htype))
    (hargs.admits i type v htype hv)

theorem Signature.getElem?_fitArgs (count : Nat) (args : List Ty) {i : Nat} {type : Ty}
    (h : (fitArgs count args)[i]? = some type) :
    args[i]? = some type ∨ args.length ≤ i ∧ type = .nil := by
  unfold fitArgs at h
  rw [List.getElem?_append] at h
  split at h
  · next hlt =>
    rw [List.getElem?_take] at h
    split at h
    · exact .inl h
    · cases h
  · next hge =>
    rw [List.getElem?_replicate] at h
    split at h
    · next hlt =>
      rw [List.length_take] at hge hlt
      cases h
      exact .inr ⟨by omega, rfl⟩
    · cases h

theorem Signature.has_forPrototype {shapes : Shapes} (hf : shapes.Forest) (proto : Prototype)
    {args upvalues : List Ty} (truncate : Bool) (hargs : ∀ type ∈ args, type.Has shapes)
    (hupvalues : ∀ type ∈ upvalues, type.Has shapes) :
    (∀ type ∈ (forPrototype shapes proto args upvalues truncate).args, type.Has shapes) ∧
    (∀ type ∈ (forPrototype shapes proto args upvalues truncate).upvalues, type.Has shapes) := by
  constructor
  · intro type htype
    obtain ⟨given, hgiven, rfl⟩ := List.mem_map.1 htype
    refine Ty.has_canonical hf ?_
    obtain ⟨i, hi⟩ := List.mem_iff_getElem?.1 hgiven
    rcases getElem?_fitArgs _ _ hi with harg | ⟨-, rfl⟩
    · exact hargs given (List.mem_of_getElem? harg)
    · trivial
  · intro type htype
    obtain ⟨given, hgiven, rfl⟩ := List.mem_map.1 htype
    exact Ty.has_canonical hf (hupvalues given hgiven)

namespace Specialization

/-- Code whose signature names types of values takes these values, whatever names the types
have now. -/
theorem passes_of_canonical {m : Machine} (hf : m.shapes.Forest) {spec : Specialization}
    (count : Nat) {types upvalues : List Ty}
    (hsignature : spec.signature.args.map (Ty.canonical m.shapes) =
      (Signature.fitArgs count types).map (Ty.canonical m.shapes))
    (hupvalues : spec.signature.upvalues.map (Ty.canonical m.shapes) =
      upvalues.map (Ty.canonical m.shapes))
    {cells : List CellId} {args : List Value} (hargs : m.AdmitsAll types args)
    (hlength : cells.length = upvalues.length)
    (hcells : ∀ (i : Nat) (type : Ty) (cell : CellId), upvalues[i]? = some type →
      cells[i]? = some cell → m.Admits type (m.heap.cell cell)) :
    spec.Passes m.shapes m.heap cells args := by
  have hnamed {named given : List Ty}
      (heq : named.map (Ty.canonical m.shapes) = given.map (Ty.canonical m.shapes)) {i : Nat}
      {type : Ty} (htype : named[i]? = some type) :
      ∃ other, given[i]? = some other ∧ other.canonical m.shapes = type.canonical m.shapes := by
    have hat : (named.map (Ty.canonical m.shapes))[i]? = some (type.canonical m.shapes) := by
      rw [List.getElem?_map, htype]
      rfl
    rw [heq, List.getElem?_map] at hat
    exact Option.map_eq_some_iff.1 hat
  refine ⟨fun i type htype => ?_, ?_, fun i type cell htype hcell => ?_⟩
  · rw [List.getElem?_take] at htype
    split at htype
    · obtain ⟨given, hgiven, heq⟩ := hnamed hsignature htype
      rw [← Ty.admits_congr hf heq]
      rcases Signature.getElem?_fitArgs _ _ hgiven with harg | ⟨hle, rfl⟩
      · have hlt : i < args.length := by
          rw [hargs.length]
          exact (List.getElem?_eq_some_iff.1 harg).1
        rw [List.getElem?_eq_getElem hlt]
        exact hargs.admits i given _ harg (List.getElem?_eq_getElem hlt)
      · rw [List.getElem?_eq_none (by rw [hargs.length]; exact hle)]
        rfl
    · cases htype
  · rw [hlength]
    simpa using (congrArg List.length hupvalues).symm
  · obtain ⟨given, hgiven, heq⟩ := hnamed hupvalues htype
    rw [← Ty.admits_congr hf heq]
    exact hcells i given cell hgiven hcell

/-- Code that was compiled for types of values takes these values. -/
theorem passes_of_signature {m : Machine} (hf : m.shapes.Forest) {spec : Specialization}
    {proto : Prototype} {types upvalues : List Ty} {truncate : Bool}
    (hsignature : spec.signature =
      Signature.forPrototype m.shapes proto types upvalues truncate)
    {cells : List CellId} {args : List Value} (hargs : m.AdmitsAll types args)
    (hlength : cells.length = upvalues.length)
    (hcells : ∀ (i : Nat) (type : Ty) (cell : CellId), upvalues[i]? = some type →
      cells[i]? = some cell → m.Admits type (m.heap.cell cell)) :
    spec.Passes m.shapes m.heap cells args := by
  refine passes_of_canonical hf proto.paramCount ?_ ?_ hargs hlength hcells
  · rw [hsignature]
    exact Ty.map_canonical_canonical hf _
  · rw [hsignature]
    exact Ty.map_canonical_canonical hf _

/-- Code that takes values goes on to take them, if the cells keep their contents. -/
theorem Passes.mono {m m' : Machine} (h : m.Sound) (h' : m'.Sound) (hg : m.Grows m')
    (hheap : m'.heap = m.heap) {spec : Specialization} {known : Shapes}
    (hargs : ∀ type ∈ spec.signature.args, type.Has known)
    (hupvalues : ∀ type ∈ spec.signature.upvalues, type.Has known) {cells : List CellId}
    {args : List Value} (hpasses : spec.Passes m.shapes m.heap cells args) :
    spec.Passes m'.shapes m'.heap cells args where
  args i type htype := by
    have hmem : type ∈ spec.signature.args := List.mem_of_mem_take (List.mem_of_getElem? htype)
    exact h.admits h' hg (hargs type hmem) (hpasses.args i type htype)
  length := hpasses.length
  cells i type cell htype hcell := by
    have hmem : type ∈ spec.signature.upvalues := List.mem_of_getElem? htype
    have hcontent : m'.heap.cell cell = m.heap.cell cell := by rw [hheap]
    rw [hcontent]
    exact h.admits h' hg (hupvalues type hmem) (hpasses.cells i type cell htype hcell)

end Specialization

/-! ## Publishing a link -/

namespace Linking

theorem Sites.get_set {sites : Sites} {id : SiteId} (hpos : 0 < id) (hle : id ≤ sites.sites.size)
    (site : Site) : (sites.set id site).get id = site := by
  obtain ⟨index, rfl⟩ := Nat.exists_eq_add_one.mpr hpos
  exact get_set_self hle site

theorem Sites.get_set_cases (sites : Sites) (id : Nat) (site : Site) (other : Nat) :
    (sites.set id site).get other = sites.get other ∨
      other = id ∧ (sites.set id site).get other = site := by
  by_cases hne : other = id
  · subst hne
    cases other with
    | zero => exact .inl rfl
    | succ index =>
      by_cases hlt : index < sites.sites.size
      · exact .inr ⟨rfl, Sites.get_set_self hlt site⟩
      · left
        simp [Sites.get, Sites.set, hlt]
  · exact .inl (Sites.get_set_of_ne sites hne site)

theorem Sites.size_set (sites : Sites) (id : Nat) (site : Site) :
    (sites.set id site).sites.size = sites.sites.size := by
  cases id with
  | zero => rfl
  | succ index => simp [Sites.set]

/-- A link that is valid may be put at a site. -/
theorem prepares_setLink {m : Machine} (h : m.Sound) {id : Nat} (site : Site) {link : Link}
    (hstatic : site.static = (m.sites.get id).static)
    (htruncate : site.truncate = (m.sites.get id).truncate) (hlink : site.link = some link)
    (hvalid : link.Valid m site.truncate) :
    m.Prepares { m with sites := m.sites.set id site } := by
  have hget (other : Nat) : ((m.sites.set id site).get other).static = (m.sites.get other).static ∧
      ((m.sites.set id site).get other).truncate = (m.sites.get other).truncate := by
    rcases Sites.get_set_cases m.sites id site other with heq | ⟨rfl, heq⟩
    · rw [heq]
      exact ⟨rfl, rfl⟩
    · rw [heq]
      exact ⟨hstatic, htruncate⟩
  have hg : m.Grows { m with sites := m.sites.set id site } := by
    refine ⟨fun _ _ hproto => hproto, .refl _, .refl _, fun {other _ _} hhas => ?_, fun ht => ht⟩
    exact ⟨hhas.pos, by rw [Sites.size_set]; exact hhas.le,
      by rw [(hget other).1, hhas.static_eq], by rw [(hget other).2, hhas.truncate_eq]⟩
  have hsound := h.of_grows hg h.knowledge h.laid (fun _ _ hspec => .inl hspec)
    (fun other type htype => .inl ((hget other).1 ▸ htype)) (fun other published hpublished => ?_)
    h.recorded
  · exact ⟨⟨hsound, hg, rfl, fun hbound => hbound⟩, rfl, rfl, rfl, rfl⟩
  · rcases Sites.get_set_cases m.sites id site other with heq | ⟨rfl, heq⟩
    · left
      change ((m.sites.set id site).get other).link = _ at hpublished
      rw [heq] at hpublished
      exact ⟨hpublished, congrArg Site.truncate heq⟩
    · right
      change ((m.sites.set other site).get other).link = _ at hpublished
      rw [heq, hlink] at hpublished
      cases hpublished
      show link.Valid _ ((m.sites.set other site).get other).truncate
      rw [heq]
      exact hvalid.mono hg h.forest h.forest

theorem run_notes : ∀ (events : List Event) (m : Machine),
    (events.forM Run.note).run.run m = (.ok (), events.foldl Machine.note m)
  | [], _ => rfl
  | event :: events, m => run_notes events (m.note event)

/-- Notes change nothing but the journal. -/
theorem foldl_note (events : List Event) (m : Machine) : ∃ journal,
    events.foldl Machine.note m = { m with knowledge := { m.knowledge with journal } } := by
  induction events generalizing m with
  | nil => exact ⟨m.knowledge.journal, rfl⟩
  | cons event events ih => exact ih (m.note event)

theorem prepares_notes (events : List Event) {m : Machine} (h : m.Sound) :
    m.Prepares (events.foldl Machine.note m) := by
  induction events generalizing m with
  | nil => exact .refl h
  | cons event events ih =>
    have hnote := Machine.Prepares.note h event
    exact hnote.trans (ih hnote.sound)

/-- The machine after a link was published. -/
def published (m : Machine) (engine : EngineId) (id : SiteId) (plan : Plan) (link : Link) :
    Machine :=
  let site := m.sites.get id
  let next := site.publish (m.engine engine).config plan link
  let linked : Machine := { m with sites := m.sites.set id next }
  (publishEvents id site.history next.history plan link).foldl Machine.note
    (linked.modifyEngine engine fun e => e.count Stats.addRelink)

theorem shapes_published (m : Machine) (engine : EngineId) (id : SiteId) (plan : Plan)
    (link : Link) : (published m engine id plan link).shapes = m.shapes := by
  unfold published
  dsimp only
  generalize publishEvents _ _ _ _ _ = events
  obtain ⟨journal, hnotes⟩ := foldl_note events _
  rw [hnotes]
  rfl

/-- Publishing a link succeeds. -/
theorem run_publish (m : Machine) (engine : EngineId) (id : SiteId) (plan : Plan) (link : Link) :
    (publish engine id plan link).run.run m =
      (.ok (.linked link), published m engine id plan link) := by
  have hnotes (events : List Event) (m : Machine) :
      (events.forM Run.note >>= fun _ => pure (Outcome.linked link) : Run Outcome).run.run m =
        (.ok (.linked link), events.foldl Machine.note m) := by
    rw [run_bind, run_notes]
    rfl
  exact hnotes _ _

theorem yields_publish {m : Machine} (h : m.Sound) (engine : EngineId) (id : SiteId) (plan : Plan)
    {link : Link} (hvalid : link.Valid m (m.sites.get id).truncate) {ok : Prop} :
    Yields Machine.Prepares m (publish engine id plan link) ok fun outcome m' =>
      outcome = .linked link ∧ m'.shapes = m.shapes := by
  have hlinked := prepares_setLink h ((m.sites.get id).publish (m.engine engine).config plan link)
    rfl rfl rfl hvalid
  have hcounted := Machine.Prepares.modifyEngine hlinked.sound engine
    (f := fun e => e.count Stats.addRelink) fun _ => rfl
  exact .of_run (run_publish m engine id plan link)
    ((hlinked.trans hcounted).trans (prepares_notes _ hcounted.sound))
    ⟨rfl, shapes_published m engine id plan link⟩

/-! ## Specializations while a program runs -/

theorem run_specialize {m : Machine} (engine : EngineId) {ref : PrototypeRef} {proto : Prototype}
    (hproto : m.program.prototype? ref = some proto) (args upvalues : List Ty) (truncate : Bool) :
    (specialize engine ref args upvalues truncate).run.run m =
      let r := (Compile.specialize engine proto
        (Signature.forPrototype m.shapes proto args upvalues truncate)).run.run m
      (r.1.mapError fun error => Stop.error (.compilation error), r.2) := by
  have hfor : (Compile.specializeFor engine proto args upvalues truncate).run.run m =
      (Compile.specialize engine proto
        (Signature.forPrototype m.shapes proto args upvalues truncate)).run.run m := by
    unfold Compile.specializeFor
    exact run_get_bind _ m
  unfold specialize
  rw [run_get_bind, hproto, ← hfor]
  dsimp only
  generalize (Compile.specializeFor engine proto args upvalues truncate).run.run m = r
  obtain ⟨result, m'⟩ := r
  cases result <;> rfl

/-- A request for a specialization while a program runs. -/
theorem yields_specialize {m : Machine} (h : m.Sound) (engine : EngineId) {ref : PrototypeRef}
    {proto : Prototype} (hproto : m.program.prototype? ref = some proto) {args upvalues : List Ty}
    (truncate : Bool) (hargs : ∀ type ∈ args, type.Has m.shapes)
    (hupvalues : ∀ type ∈ upvalues, type.Has m.shapes) :
    Yields Machine.Compiles m (specialize engine ref args upvalues truncate)
      (Stmt.BlockWellFormed m.program proto false proto.body) fun spec m' =>
        spec.signature = Signature.forPrototype m.shapes proto args upvalues truncate ∧
        spec.proto.id = ref.id ∧ m'.SpecOk spec := by
  obtain ⟨index, -, hat⟩ := Program.exists_index hproto
  have hid : proto.ref.id = ref.id := h.knowledge.inScope.id_eq_of_prototype? hproto
  obtain ⟨hargs', hupvalues'⟩ :=
    Signature.has_forPrototype h.forest proto truncate hargs hupvalues
  have hcompile := Compile.yields_specialize h engine hat
    (by simp [Signature.forPrototype, Signature.of, Signature.length_fitArgs]) hargs' hupvalues'
  refine Yields.of_mapError (run_specialize engine hproto args upvalues truncate)
    (hcompile.mono id fun spec m' _ hspec => ?_)
  obtain ⟨hsignature, hid', hok⟩ := hspec
  exact ⟨hsignature, hid'.trans hid, hok⟩

theorem yields_specialize_none {m : Machine} (h : m.Sound) (engine : EngineId)
    {ref : PrototypeRef} (hproto : m.program.prototype? ref = none) (args upvalues : List Ty)
    (truncate : Bool) :
    Yields Machine.Compiles m (specialize engine ref args upvalues truncate) False
      fun _ _ => False := by
  refine .of_get ?_
  rw [hproto]
  exact .throw (.refl h) not_false

/-! ## Targets -/

/-- A target runs the code of a callee, and keeps as many results as the site does. -/
def Target.Serves (m : Machine) (truncate : Bool) (callee : Value) (target : Target) : Prop :=
  ∃ guard : Guard, guard.holds m.heap callee = true ∧ (Link.mk guard target).Valid m truncate

/-- A target takes the arguments for a callee: the check that it makes first passes. -/
def Target.Accepts (m : Machine) (callee : Value) (args : List Value) : Target → Prop
  | .instance spec cells => spec.Passes m.shapes m.heap cells args
  | .prototype spec => ∃ closure, m.heap.closure? callee = some closure ∧
    spec.Passes m.shapes m.heap closure.cells args
  | .host ref index => ∃ overloads, m.heap.overloads? ref = some overloads ∧
    Overload.matchesAt m.shapes m.heap overloads index args = true
  | .foreign _ => True

theorem Target.Accepts.congr {m m' : Machine} (hshapes : m'.shapes = m.shapes)
    (hheap : m'.heap = m.heap) {callee : Value} {args : List Value} {target : Target}
    (h : target.Accepts m callee args) : target.Accepts m' callee args := by
  cases target <;> unfold Accepts <;> rw [hheap] <;> try rw [hshapes]
  all_goals exact h

/-- What is asked of a choice of the linker: it serves the callee, and takes the arguments if
they have the planned types and the callee keeps what it declares. -/
structure Target.Suits (m : Machine) (truncate : Bool) (callee : Value) (args : List Value)
    (promised : Prop) (target : Target) : Prop where
  serves : target.Serves m truncate callee
  accepts : promised → target.Accepts m callee args

/-- A link that suits a callee may be published. -/
theorem yields_publish_suits {m : Machine} (h : m.Sound) (engine : EngineId) {id : Nat}
    {static : List Ty} {truncate : Bool} (hsite : m.sites.Has id static truncate) (plan : Plan)
    {link : Link} {callee : Value} {args : List Value} {promised ok : Prop}
    (hguard : link.guard.holds m.heap callee = true) (hvalid : link.Valid m truncate)
    (haccepts : promised → link.target.Accepts m callee args) :
    Yields Machine.Prepares m (publish engine id plan link) ok fun outcome m' =>
      outcome.target.Suits m' truncate callee args promised := by
  have hvalid' : link.Valid m (m.sites.get id).truncate := by rwa [hsite.truncate_eq]
  refine (yields_publish h engine id plan hvalid').mono (fun hok => hok)
    fun outcome m' hprep hpost => ?_
  obtain ⟨rfl, hshapes⟩ := hpost
  refine ⟨⟨link.guard, by rw [hprep.heap]; exact hguard, ?_⟩,
    fun hpromised => (haccepts hpromised).congr hshapes hprep.heap⟩
  exact hvalid.mono hprep.evolves.grows h.forest hprep.sound.forest

theorem Guard.holds_identity (heap : Heap) (ref : FunctionRef) :
    (Guard.identity ref).holds heap (.function ref) = true := by
  simp [Guard.holds]

theorem Guard.holds_prototype {heap : Heap} {ref : FunctionRef} {c : Closure}
    (h : heap.closureOf? ref = some c) :
    (Guard.prototype c.proto.id).holds heap (.function ref) = true := by
  simp [Guard.holds, h]

/-! ## Closures -/

section Closures

variable {m : Machine} {closure : Closure} {proto : Prototype}

theorem has_staticUpvalueTypes (h : m.Sound)
    (hproto : m.program.prototype? closure.proto = some proto) :
    ∀ type ∈ proto.staticUpvalueTypes, type.Has m.shapes := by
  cases hid : closure.proto.id with
  | zero => simp [Program.prototype?, hid] at hproto
  | succ index =>
    rw [Program.prototype?_eq hid] at hproto
    exact h.knowledge.inScope.upvalues hproto

theorem has_knownType (h : m.Sound) (hproto : m.program.prototype? closure.proto = some proto)
    {i : Nat} {template : UpvalueTemplate} {type : Ty} (htemplate : proto.upvalues[i]? = some template)
    (htype : template.knownType = some type) : type.Has m.shapes := by
  refine has_staticUpvalueTypes h hproto type (List.mem_of_getElem? (i := i) ?_)
  rw [Prototype.getElem?_staticUpvalueTypes, htemplate, Option.map_some,
    UpvalueTemplate.staticType, htype]
  rfl

theorem has_identityUpvalueTypes (h : m.Sound) (registry : Registry)
    (hproto : m.program.prototype? closure.proto = some proto) :
    ∀ type ∈ identityUpvalueTypes registry m.heap proto closure.cells, type.Has m.shapes := by
  intro type htype
  obtain ⟨i, hi⟩ := List.mem_iff_getElem?.1 htype
  obtain ⟨template, cell, htemplate, -, hcases⟩ := identityUpvalueTypes_cases hi
  rcases hcases with hdeclared | ⟨-, rfl⟩ | rfl
  · exact has_knownType h hproto htemplate hdeclared
  · exact Ty.has_ofValue h.laid registry _
  · trivial

/-- The upvalue types of one closure are declared, or those of cells that keep their
contents. -/
theorem supports_identityUpvalueTypes (hf : m.shapes.Forest) (registry : Registry)
    (proto : Prototype) (closure : Closure) :
    proto.Supports m.shapes ((identityUpvalueTypes registry m.heap proto closure.cells).map
      (Ty.canonical m.shapes)) := by
  intro i type htype
  rw [List.getElem?_map] at htype
  obtain ⟨given, hgiven, rfl⟩ := Option.map_eq_some_iff.1 htype
  obtain ⟨template, cell, htemplate, -, hcases⟩ := identityUpvalueTypes_cases hgiven
  rcases hcases with hdeclared | ⟨hsealed, -⟩ | rfl
  · exact .inr ⟨template, htemplate, .inr ⟨given, hdeclared,
      (Ty.canonical_canonical hf given).symm⟩⟩
  · exact .inr ⟨template, htemplate, .inl hsealed⟩
  · exact .inl rfl

end Closures
end Linking

namespace Closure.Keeps

variable {m : Machine} {closure : Closure} {proto : Prototype}

/-- The cells of a closure have the types that are declared for them. -/
theorem admits_static (hkeeps : closure.Keeps m proto) {i : Nat} {type : Ty}
    {cell : CellId} (htype : proto.staticUpvalueTypes[i]? = some type)
    (hcell : closure.cells[i]? = some cell) : m.Admits type (m.heap.cell cell) := by
  rw [Prototype.getElem?_staticUpvalueTypes] at htype
  obtain ⟨template, htemplate, rfl⟩ := Option.map_eq_some_iff.1 htype
  cases hknown : template.knownType with
  | some declared =>
    rw [UpvalueTemplate.staticType, hknown]
    exact hkeeps.declared i template cell declared htemplate hcell hknown
  | none =>
    rw [UpvalueTemplate.staticType, hknown]
    exact Ty.admits_unknown _ _ _

/-- The cells of a closure have the types that hold for this closure. -/
theorem admits_identity (h : m.Sound) (hkeeps : closure.Keeps m proto)
    (registry : Registry) {i : Nat} {type : Ty} {cell : CellId}
    (htype : (Linking.identityUpvalueTypes registry m.heap proto closure.cells)[i]? = some type)
    (hcell : closure.cells[i]? = some cell) : m.Admits type (m.heap.cell cell) := by
  obtain ⟨template, other, htemplate, hother, hcases⟩ := Linking.identityUpvalueTypes_cases htype
  rw [hcell] at hother
  cases hother
  rcases hcases with hdeclared | ⟨-, rfl⟩ | rfl
  · exact hkeeps.declared i template cell type htemplate hcell hdeclared
  · exact Ty.admits_ofValue h.forest h.laid registry _
  · exact Ty.admits_unknown _ _ _

end Closure.Keeps

namespace Linking

/-- What has to hold of a closure for the linker to find code for it. -/
structure Ready (m : Machine) (closure : Closure) (proto : Prototype) : Prop where
  prototype : m.program.prototype? closure.proto = some proto
  length : closure.cells.length = proto.upvalues.size
  body : Stmt.BlockWellFormed m.program proto false proto.body

section Closures

variable {m : Machine} (h : m.Sound) (engine : EngineId) {id : Nat} {static : List Ty}
  {truncate : Bool} (hsite : m.sites.Has id static truncate) (plan : Plan)
  (hplan : ∀ type ∈ plan.types, type.Has m.shapes) {ref : FunctionRef} {closure : Closure}
  (hclosure : m.heap.closureOf? ref = some closure) {proto : Prototype}
  (hproto : m.program.prototype? closure.proto = some proto) (args : List Value)

include h hsite hplan hclosure hproto

/-- Linking one closure by itself. -/
theorem yields_linkInstance : Yields Machine.Prepares m
    (do
      let spec ← specialize engine closure.proto plan.types
        (identityUpvalueTypes (m.engine engine).registry m.heap proto closure.cells) truncate
      let target ← Run.ofExcept (construct spec closure.cells)
      publish engine id plan ⟨.identity ref, target⟩)
    (Ready m closure proto) fun outcome m' =>
      outcome.target.Suits m' truncate (.function ref) args
        (m.AdmitsAll plan.types args ∧ closure.Keeps m proto) := by
  have hupvalues := has_identityUpvalueTypes h (m.engine engine).registry hproto
  have hspecialize := (yields_specialize h engine hproto truncate hplan hupvalues).imp
    fun _ => Machine.Compiles.prepares
  refine hspecialize.bind (fun hready => ⟨hready.body, hready.length⟩) fun spec m₁ hprep₁ hspec => ?_
  obtain ⟨hsignature, hid, hok⟩ := hspec
  have hlength : spec.signature.upvalues.length =
      (identityUpvalueTypes (m.engine engine).registry m.heap proto closure.cells).length := by
    rw [hsignature]
    simp [Signature.forPrototype, Signature.of]
  by_cases hcells : closure.cells.length = spec.signature.upvalues.length
  · have hconstruct : construct spec closure.cells = .ok (.instance spec closure.cells) :=
      if_pos hcells
    rw [hconstruct]
    have hclosure₁ : m₁.heap.closureOf? ref = some closure := by rw [hprep₁.heap, hclosure]
    have hsupports := supports_identityUpvalueTypes h.forest (m.engine engine).registry proto closure
    refine yields_publish_suits hprep₁.sound engine (hprep₁.evolves.grows.sites hsite) plan
      (Guard.holds_identity _ ref) ?_ ?_
    · refine .closure hclosure₁ hok hid (by rw [hsignature]; rfl) hcells
        (hprep₁.evolves.grows.program.prototype? hproto) ?_
      rw [hsignature]
      exact hsupports.mono hprep₁.evolves.grows.shapes h.forest hprep₁.sound.forest
    · rintro ⟨hargs, hkeeps⟩
      obtain ⟨_, _, _, hspec⟩ := hok
      have hpasses : spec.Passes m.shapes m.heap closure.cells args :=
        Specialization.passes_of_signature h.forest hsignature hargs (hcells.trans hlength)
          fun i type cell => hkeeps.admits_identity h _
      exact hpasses.mono h hprep₁.sound hprep₁.evolves.grows hprep₁.heap hspec.args_has
        hspec.upvalues_has
  · have hconstruct : construct spec closure.cells = .error (.bindingMismatch spec.name
        spec.signature.upvalues.length closure.cells.length) := if_neg hcells
    rw [hconstruct]
    refine .throw (.refl hprep₁.sound) fun hready => hcells ?_
    rw [hlength, length_identityUpvalueTypes _ _ hready, hready]

/-- Linking all closures of a prototype. -/
theorem yields_linkPrototype : Yields Machine.Prepares m
    (do
      let spec ← specialize engine closure.proto plan.types proto.staticUpvalueTypes truncate
      publish engine id plan ⟨.prototype closure.proto.id, .prototype spec⟩)
    (Ready m closure proto) fun outcome m' =>
      outcome.target.Suits m' truncate (.function ref) args
        (m.AdmitsAll plan.types args ∧ closure.Keeps m proto) := by
  have hupvalues := has_staticUpvalueTypes h hproto
  have hspecialize := (yields_specialize h engine hproto truncate hplan hupvalues).imp
    fun _ => Machine.Compiles.prepares
  refine hspecialize.bind (fun hready => ⟨hready.body, trivial⟩) fun spec m₁ hprep₁ hspec => ?_
  obtain ⟨hsignature, hid, hok⟩ := hspec
  have hclosure₁ : m₁.heap.closureOf? ref = some closure := by rw [hprep₁.heap, hclosure]
  refine yields_publish_suits hprep₁.sound engine (hprep₁.evolves.grows.sites hsite) plan
    (Guard.holds_prototype hclosure₁) ?_ ?_
  · have hproto₁ : m₁.program.prototype? spec.proto = some proto := by
      have hsame : m₁.program.prototype? spec.proto = m₁.program.prototype? closure.proto := by
        unfold Program.prototype?
        rw [hid]
      rw [hsame]
      exact hprep₁.evolves.grows.program.prototype? hproto
    refine .prototype hok hid (by rw [hsignature]; rfl) hproto₁ ?_
    refine Ty.map_canonical_congr hprep₁.evolves.grows.shapes h.forest hprep₁.sound.forest ?_
    rw [hsignature]
    exact Ty.map_canonical_canonical h.forest _
  · rintro ⟨hargs, hkeeps⟩
    obtain ⟨_, _, _, hspec⟩ := hok
    have hlength : closure.cells.length = proto.staticUpvalueTypes.length := by
      rw [hkeeps.length]
      simp [Prototype.staticUpvalueTypes]
    have hpasses : spec.Passes m.shapes m.heap closure.cells args :=
      Specialization.passes_of_signature h.forest hsignature hargs hlength
        fun i type cell => hkeeps.admits_static
    exact ⟨closure, hclosure₁, hpasses.mono h hprep₁.sound hprep₁.evolves.grows hprep₁.heap
      hspec.args_has hspec.upvalues_has⟩

omit hproto in
/-- Linking a closure. -/
theorem yields_linkClosure : Yields Machine.Prepares m (linkClosure engine id plan ref closure)
    (∃ proto, Ready m closure proto) fun outcome m' =>
      outcome.target.Suits m' truncate (.function ref) args
        (m.AdmitsAll plan.types args ∧ ∃ proto, closure.Keeps m proto) := by
  refine .of_get ?_
  dsimp only
  rw [hsite.truncate_eq]
  cases hproto : m.program.prototype? closure.proto with
  | none =>
    have hready : ¬ ∃ proto, Ready m closure proto := by
      rintro ⟨proto, hready⟩
      have hsome := hready.prototype
      rw [hproto] at hsome
      cases hsome
    have hfails (args upvalues : List Ty) (truncate : Bool) :=
      (yields_specialize_none h engine hproto args upvalues truncate).imp
        fun _ => Machine.Compiles.prepares
    split
    · exact (hfails _ _ _).fails_bind hready
    · exact (hfails _ _ _).fails_bind hready
  | some proto =>
    -- the closure has one prototype, so what is known of some prototype is known of this one
    have hready (hyes : ∃ proto, Ready m closure proto) : Ready m closure proto := by
      obtain ⟨other, hready⟩ := hyes
      have hsame := hready.prototype
      rw [hproto] at hsame
      cases hsame
      exact hready
    have hkeeps (hyes : ∃ proto, closure.Keeps m proto) : closure.Keeps m proto := by
      obtain ⟨other, hkeeps⟩ := hyes
      have hsame := hkeeps.prototype
      rw [hproto] at hsame
      cases hsame
      exact hkeeps
    split
    · refine (yields_linkInstance h engine hsite plan hplan hclosure hproto args).mono hready
        fun outcome m₁ _ hsuits => ⟨hsuits.serves, fun hyes => ?_⟩
      exact hsuits.accepts ⟨hyes.1, hkeeps hyes.2⟩
    · refine (yields_linkPrototype h engine hsite plan hplan hclosure hproto args).mono hready
        fun outcome m₁ _ hsuits => ⟨hsuits.serves, fun hyes => ?_⟩
      exact hsuits.accepts ⟨hyes.1, hkeeps hyes.2⟩

end Closures

/-! ## Host functions -/

theorem matchesAt_of_selectValues? {m : Machine} {overloads : List Overload} {args : List Value}
    {index : Nat} (hselect : Overload.selectValues? m.shapes m.heap overloads args = some index) :
    index < overloads.length ∧
      Overload.matchesAt m.shapes m.heap overloads index args = true := by
  obtain ⟨hlt, hadmits, -⟩ := List.findIdx?_eq_some_iff_getElem.1 hselect
  refine ⟨hlt, ?_⟩
  unfold Overload.matchesAt
  rw [List.getElem?_eq_getElem hlt]
  exact hadmits

theorem matchesAt_of_select? (m : Machine) {overloads : List Overload} {types : List Ty}
    (args : List Value) {index : Nat} (hselect : Overload.select? overloads types = some index) :
    index < overloads.length ∧ (m.AdmitsAll types args →
      Overload.matchesAt m.shapes m.heap overloads index args = true) := by
  obtain ⟨hlt, haccepts, -⟩ := List.findIdx?_eq_some_iff_getElem.1 hselect
  refine ⟨hlt, fun hargs => ?_⟩
  unfold Overload.matchesAt
  rw [List.getElem?_eq_getElem hlt]
  exact Overload.admits_of_accepts haccepts hargs

/-- Linking a host function. -/
theorem yields_linkHost {m : Machine} (h : m.Sound) (engine : EngineId) {id : Nat}
    {static : List Ty} {truncate : Bool} (hsite : m.sites.Has id static truncate) (plan : Plan)
    {ref : FunctionRef} {overloads : List Overload}
    (hoverloads : m.heap.overloads? ref = some overloads) (args : List Value) :
    Yields Machine.Prepares m (linkHost engine id plan ref overloads args)
      (Overload.selectValues? m.shapes m.heap overloads args ≠ none) fun outcome m' =>
        outcome.target.Suits m' truncate (.function ref) args (m.AdmitsAll plan.types args) := by
  unfold linkHost
  split
  · next index hselect =>
    obtain ⟨hlt, hmatches⟩ := matchesAt_of_select? m args hselect
    exact yields_publish_suits h engine hsite plan (Guard.holds_identity _ ref)
      (.host hoverloads hlt) fun hargs => ⟨overloads, hoverloads, hmatches hargs⟩
  · refine .of_get ?_
    split
    · next index hselect =>
      obtain ⟨hlt, hmatches⟩ := matchesAt_of_selectValues? hselect
      refine (Yields.modify (.modifyEngine h engine fun _ => rfl)).seq fun _ m₁ hprep₁ hm₁ => ?_
      refine (Yields.modify (.note hprep₁.sound _)).seq fun _ m₂ hprep₂ hm₂ => ?_
      have hshapes : m₂.shapes = m.shapes := by rw [hm₂, hm₁]; rfl
      have hheap : m₂.heap = m.heap := hprep₂.heap.trans hprep₁.heap
      have hvalid : (Link.mk (.identity ref) (.host ref index)).Valid m truncate :=
        .host hoverloads hlt
      refine .pure (.refl hprep₂.sound) ⟨⟨.identity ref, Guard.holds_identity _ ref, ?_⟩, fun _ => ?_⟩
      · exact hvalid.mono (hprep₁.trans hprep₂).evolves.grows h.forest hprep₂.sound.forest
      · refine Target.Accepts.congr hshapes hheap ?_
        exact ⟨overloads, hoverloads, hmatches⟩
    · next hnone => exact .throw (.refl h) fun hsome => hsome hnone

/-! ## The linker -/

/-- The plan of a site counts on types that admit the arguments. -/
theorem admitsAll_plan {m : Machine} (h : m.Sound) (engine : EngineId) (history : History)
    (config : Config) {static : List Ty} {args : List Value} (hstatic : m.AdmitsAll static args) :
    m.AdmitsAll (plan history config static (args.map (m.typeOf engine))).types args := by
  unfold plan
  dsimp only
  split
  · exact hstatic
  · split
    · exact Machine.admitsAll_typeOf h.forest h.laid engine args
    · exact hstatic

theorem has_typeOf {m : Machine} (h : m.Sound) (engine : EngineId) (args : List Value) :
    ∀ type ∈ args.map (m.typeOf engine), type.Has m.shapes := by
  intro type htype
  obtain ⟨v, -, rfl⟩ := List.mem_map.1 htype
  exact Ty.has_ofValue h.laid _ v

theorem has_plan {m : Machine} (h : m.Sound) (engine : EngineId) (id : SiteId) (history : History)
    (config : Config) (args : List Value) :
    ∀ type ∈ (plan history config (m.sites.get id).static (args.map (m.typeOf engine))).types,
      type.Has m.shapes := by
  have hruntime := has_typeOf h engine args
  intro type htype
  unfold plan at htype
  dsimp only at htype
  split at htype
  · exact h.static id type htype
  · split at htype
    · exact hruntime type htype
    · exact h.static id type htype

/-- What has to hold of a callee for the linker to find code for it. -/
inductive Linkable (m : Machine) (args : List Value) : Value → Prop
  | closure {ref : FunctionRef} {closure : Closure} {proto : Prototype} :
    m.heap.function? ref = some (.closure closure) → Ready m closure proto →
    Linkable m args (.function ref)
  | host {ref : FunctionRef} {overloads : List Overload} :
    m.heap.function? ref = some (.host overloads) →
    Overload.selectValues? m.shapes m.heap overloads args ≠ none →
    Linkable m args (.function ref)
  | foreign {ref : FunctionRef} {action : Action} :
    m.heap.function? ref = some (.foreign action) → Linkable m args (.function ref)

/-- A callee that is a closure keeps what its prototype declares. -/
def Keeps (m : Machine) (callee : Value) : Prop :=
  ∀ closure, m.heap.closure? callee = some closure → ∃ proto, closure.Keeps m proto

/-- **The linker** gives a target that runs the code of the callee.  If the arguments have the
static types of the site and the callee keeps what it declares, the target takes them. -/
theorem yields_link {m : Machine} (h : m.Sound) (engine : EngineId) {id : Nat} {static : List Ty}
    {truncate : Bool} (hsite : m.sites.Has id static truncate) (callee : Value)
    (args : List Value) :
    Yields Machine.Prepares m (link engine id callee args) (Linkable m args callee)
      fun outcome m' => outcome.target.Suits m' truncate callee args
        (m.AdmitsAll static args ∧ Keeps m callee) := by
  cases callee with
  | function ref =>
    refine .of_get ?_
    dsimp only
    generalize hplan : plan (m.sites.get id).history (m.engine engine).config
      (m.sites.get id).static (args.map (m.typeOf engine)) = plan
    have hhas : ∀ type ∈ plan.types, type.Has m.shapes := by
      rw [← hplan]
      exact has_plan h engine id _ _ args
    have hadmits (hargs : m.AdmitsAll static args) : m.AdmitsAll plan.types args := by
      rw [← hplan, hsite.static_eq]
      exact admitsAll_plan h engine _ _ hargs
    split
    · next closure hfunction =>
      have hclosure : m.heap.closureOf? ref = some closure := by
        unfold Heap.closureOf?
        rw [hfunction]
      refine (yields_linkClosure h engine hsite plan hhas hclosure args).mono ?_
        fun outcome m₁ _ hsuits => ⟨hsuits.serves, fun hyes => ?_⟩
      · rintro (⟨hfunction', hready⟩ | ⟨hfunction', -⟩ | hfunction')
        · rw [hfunction] at hfunction'
          cases hfunction'
          exact ⟨_, hready⟩
        · rw [hfunction] at hfunction'
          cases hfunction'
        · rw [hfunction] at hfunction'
          cases hfunction'
      · exact hsuits.accepts ⟨hadmits hyes.1, hyes.2 closure hclosure⟩
    · next overloads hfunction =>
      have hoverloads : m.heap.overloads? ref = some overloads := by
        unfold Heap.overloads?
        rw [hfunction]
      refine (yields_linkHost h engine hsite plan hoverloads args).mono ?_
        fun outcome m₁ _ hsuits => ⟨hsuits.serves, fun hyes => hsuits.accepts (hadmits hyes.1)⟩
      rintro (⟨hfunction', -⟩ | ⟨hfunction', hselect⟩ | hfunction')
      · rw [hfunction] at hfunction'
        cases hfunction'
      · rw [hfunction] at hfunction'
        cases hfunction'
        exact hselect
      · rw [hfunction] at hfunction'
        cases hfunction'
    · next action hfunction =>
      exact yields_publish_suits h engine hsite plan (Guard.holds_identity _ ref)
        (.foreign hfunction) fun _ => trivial
    · next hfunction =>
      refine .throw (.refl h) ?_
      rintro (⟨hfunction', -⟩ | ⟨hfunction', -⟩ | hfunction') <;>
        · rw [hfunction] at hfunction'
          cases hfunction'
  | _ => exact .throw (.refl h) fun hyes => by cases hyes

theorem Target.Suits.recordEntry {m : Machine} (h : m.Sound) {truncate : Bool} {callee : Value}
    {args : List Value} {promised : Prop} {target : Target}
    (hsuits : target.Suits m truncate callee args promised) (before : Ghost State)
    (engine : EngineId) (id : SiteId) (result : Except Stop Outcome) :
    target.Suits (m.recordEntry before engine id callee args result) truncate callee args
      promised := by
  have hrecord := Machine.Prepares.recordEntry h before engine id callee args result
  obtain ⟨⟨guard, hguard, hvalid⟩, haccepts⟩ := hsuits
  exact ⟨⟨guard, hguard, hvalid.mono hrecord.evolves.grows h.forest hrecord.sound.forest⟩,
    fun hyes => (haccepts hyes).congr rfl rfl⟩

/-- **Entering the linker** is linking, and it is remembered. -/
theorem yields_enter {m : Machine} (h : m.Sound) (before : Ghost State) (engine : EngineId)
    {id : Nat} {static : List Ty} {truncate : Bool} (hsite : m.sites.Has id static truncate)
    (callee : Value) (args : List Value) :
    Yields Machine.Prepares m (enter before engine id callee args) (Linkable m args callee)
      fun outcome m' => outcome.target.Suits m' truncate callee args
        (m.AdmitsAll static args ∧ Keeps m callee) := by
  refine (yields_link h engine hsite callee args).remembering fun result m' hprep => ?_
  exact ⟨hprep.trans (.recordEntry hprep.sound before engine id callee args result),
    fun _ hsuits => hsuits.recordEntry hprep.sound before engine id result⟩

end Linking
end AdaptiveScript
