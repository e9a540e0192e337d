import AdaptiveScript.Compilation
import AdaptiveScript.Proofs.Machine.Growth

/-!
# Sound machines

A machine is sound if everything it remembers is what it should be: knowledge is true,
tables are laid out by compiled shapes, every cached specialization is code of its
prototype under its signature, and every published link runs the code of the callee that
its guard lets pass.

Each part survives growth (`SpecOk.mono`, `Linking.Link.Valid.mono`), so a change of the
machine has to be justified only where it adds something (`Sound.of_grows`).
-/

namespace AdaptiveScript

/-! ## Specializations -/

/-- Types for the upvalues of a prototype that hold for a closure as long as promises are
kept: types that are declared, and types of cells that are never written. -/
def Prototype.Supports (proto : Prototype) (shapes : Shapes) (types : List Ty) : Prop :=
  ∀ (i : Nat) (type : Ty), types[i]? = some type → type = .unknown ∨
    ∃ template, proto.upvalues[i]? = some template ∧ (template.isSealed = true ∨
      ∃ declared, template.knownType = some declared ∧
        declared.canonical shapes = type.canonical shapes)

theorem Prototype.Supports.mono {proto : Prototype} {before after : Shapes}
    (hg : before.Grows after) (hb : before.Forest) (ha : after.Forest) {types : List Ty}
    (h : proto.Supports before types) : proto.Supports after types := by
  intro i type htype
  rcases h i type htype with hunknown | ⟨template, htemplate, hreason⟩
  · exact .inl hunknown
  · refine .inr ⟨template, htemplate, hreason.imp_right ?_⟩
    rintro ⟨declared, hdeclared, heq⟩
    exact ⟨declared, hdeclared, Ty.canonical_congr hg hb ha heq⟩

/-- A specialization is code of its prototype under its signature. -/
structure Specialization.Valid (spec : Specialization) (σ : Setting) (returns : List Ty) :
    Prop where
  constants : spec.constants = σ.constants
  proto : σ.program.prototype? spec.proto = some σ.proto
  paramCount : spec.paramCount = σ.proto.paramCount
  captured : spec.captured = σ.proto.locals.toList.map LocalDecl.captured
  locals : spec.locals = (List.range σ.proto.localCount).map σ.typing.slot
  returns_eq : spec.returns = visibleReturns spec.signature returns
  argCount : spec.signature.args.length = σ.proto.paramCount
  args_has : ∀ type ∈ spec.signature.args, type.Has σ.shapes
  upvalues_has : ∀ type ∈ spec.signature.upvalues, type.Has σ.shapes
  respects : σ.typing.Respects σ.proto
  params : ∀ slot < σ.proto.paramCount,
    σ.typing.Takes σ.shapes slot (spec.signature.args[slot]?.getD .nil)
  upvalues : ∀ i, σ.typing.upvalue i = spec.signature.upvalues[i]?.getD .unknown
  typed : BodyTyped σ.knowledge σ.typing returns σ.proto.body
  emits : EmitsBlock σ false σ.proto.body spec.body

theorem Specialization.Valid.mono {before after : Setting} (hg : before.Grows after)
    {spec : Specialization} {returns : List Ty} (hconstants : after.constants = before.constants)
    (h : spec.Valid before returns) : spec.Valid after returns where
  constants := by rw [hconstants, h.constants]
  proto := by rw [hg.proto, hg.program.prototype? h.proto]
  paramCount := by rw [hg.proto, h.paramCount]
  captured := by rw [hg.proto, h.captured]
  locals := by rw [hg.proto, hg.typing, h.locals]
  returns_eq := h.returns_eq
  argCount := by rw [hg.proto, h.argCount]
  args_has type htype := (h.args_has type htype).mono hg.shapes
  upvalues_has type htype := (h.upvalues_has type htype).mono hg.shapes
  respects := by
    rw [hg.proto, hg.typing]
    exact h.respects
  params slot hslot := by
    rw [hg.typing]
    exact (h.params slot (by rwa [← hg.proto])).mono hg.shapes hg.forest hg.forest_after
  upvalues i := by rw [hg.typing, h.upvalues]
  typed := by
    rw [hg.proto, hg.typing]
    exact h.typed.mono hg.knowledge hg.forest hg.forest_after
  emits := by
    rw [hg.proto]
    exact h.emits.mono hg

namespace Machine

/-- What the code of a function refers to. -/
def setting (m : Machine) (constants : Array Value) (proto : Prototype) (Γ : Typing) : Setting :=
  ⟨m.program, m.knowledge, m.sites, constants, proto, Γ⟩

theorem Grows.setting {before after : Machine} (hg : before.Grows after)
    (hb : before.shapes.Forest) (ha : after.shapes.Forest) (constants : Array Value)
    (proto : Prototype) (Γ : Typing) :
    (before.setting constants proto Γ).Grows (after.setting constants proto Γ) :=
  ⟨hg.program, hg.knowledge, hb, ha, hg.sites, fun h => h, rfl, rfl⟩

/-- A specialization is code of its prototype under its signature. -/
def SpecOk (m : Machine) (spec : Specialization) : Prop :=
  ∃ proto Γ returns, spec.Valid (m.setting spec.constants proto Γ) returns

theorem SpecOk.mono {before after : Machine} (hg : before.Grows after)
    (hb : before.shapes.Forest) (ha : after.shapes.Forest) {spec : Specialization}
    (h : before.SpecOk spec) : after.SpecOk spec := by
  obtain ⟨proto, Γ, returns, hvalid⟩ := h
  exact ⟨proto, Γ, returns, hvalid.mono (hg.setting hb ha _ proto Γ) rfl⟩

end Machine

/-! ## Links -/

namespace Linking

/-- A link runs the code of every callee that its guard lets pass, and keeps as many results
as the site does. -/
inductive Link.Valid (m : Machine) (truncate : Bool) : Link → Prop
  /-- A closure with its own cells. -/
  | closure {ref : FunctionRef} {closure : Closure} {proto : Prototype} {spec : Specialization} :
    m.heap.closureOf? ref = some closure → m.SpecOk spec → spec.proto.id = closure.proto.id →
    spec.signature.truncate = truncate →
    closure.cells.length = spec.signature.upvalues.length →
    m.program.prototype? closure.proto = some proto →
    proto.Supports m.shapes spec.signature.upvalues →
    Valid m truncate ⟨.identity ref, .instance spec closure.cells⟩
  /-- All closures of a prototype, with the upvalue types that they share. -/
  | prototype {id : Nat} {proto : Prototype} {spec : Specialization} :
    m.SpecOk spec → spec.proto.id = id → spec.signature.truncate = truncate →
    m.program.prototype? spec.proto = some proto →
    spec.signature.upvalues.map (Ty.canonical m.shapes) =
      proto.staticUpvalueTypes.map (Ty.canonical m.shapes) →
    Valid m truncate ⟨.prototype id, .prototype spec⟩
  /-- One overload of a host function. -/
  | host {ref : FunctionRef} {overloads : List Overload} {index : Nat} :
    m.heap.overloads? ref = some overloads → index < overloads.length →
    Valid m truncate ⟨.identity ref, .host ref index⟩
  /-- Another callable of the host. -/
  | foreign {ref : FunctionRef} {action : Action} :
    m.heap.function? ref = some (.foreign action) →
    Valid m truncate ⟨.identity ref, .foreign ref⟩

end Linking

theorem Heap.Grows.overloads? {before after : Heap} (hg : before.Grows after) {ref : FunctionRef}
    {overloads : List Overload} (h : before.overloads? ref = some overloads) :
    after.overloads? ref = some overloads := by
  unfold Heap.overloads? at h ⊢
  cases hf : before.function? ref with
  | none =>
    rw [hf] at h
    cases h
  | some f =>
    rw [hf] at h
    rw [hg.function hf]
    exact h

/-- Lists of types that are named alike stay so. -/
theorem Ty.map_canonical_congr {before after : Shapes} (hg : before.Grows after)
    (hb : before.Forest) (ha : after.Forest) : ∀ {types others : List Ty},
    types.map (Ty.canonical before) = others.map (Ty.canonical before) →
    types.map (Ty.canonical after) = others.map (Ty.canonical after)
  | [], [], _ => rfl
  | [], _ :: _, h => by cases h
  | _ :: _, [], h => by cases h
  | type :: types, other :: others, h => by
    simp only [List.map_cons, List.cons.injEq] at h ⊢
    exact ⟨Ty.canonical_congr hg hb ha h.1, map_canonical_congr hg hb ha h.2⟩

theorem Linking.Link.Valid.mono {before after : Machine} (hg : before.Grows after)
    (hb : before.shapes.Forest) (ha : after.shapes.Forest) {truncate : Bool} {link : Link}
    (h : link.Valid before truncate) : link.Valid after truncate := by
  cases h with
  | closure hclosure hspec hid htruncate hlength hproto hsupports =>
    exact .closure (hg.heap.closureOf? hclosure) (hspec.mono hg hb ha) hid htruncate hlength
      (hg.program.prototype? hproto) (hsupports.mono hg.shapes hb ha)
  | prototype hspec hid htruncate hproto heq =>
    exact .prototype (hspec.mono hg hb ha) hid htruncate (hg.program.prototype? hproto)
      (Ty.map_canonical_congr hg.shapes hb ha heq)
  | host hoverloads hindex => exact .host (hg.heap.overloads? hoverloads) hindex
  | foreign hfunction => exact .foreign (hg.heap.function hfunction)

/-! ## Machines -/

namespace Machine

/-- Everything that a machine remembers is what it should be. -/
structure Sound (m : Machine) : Prop where
  knowledge : m.knowledge.Sound m.program
  laid : m.heap.Laid m.shapes
  specs : ∀ index : Nat, ∀ spec ∈ (m.caches.getD index .empty).entries,
    spec.proto.id = index + 1 ∧ m.SpecOk spec
  static : ∀ id : Nat, ∀ type ∈ (m.sites.get id).static, type.Has m.shapes
  links : ∀ (id : Nat) (link : Linking.Link), (m.sites.get id).link = some link →
    link.Valid m (m.sites.get id).truncate
  /-- The shared objects are as they were at some moment that is remembered. -/
  recorded : ∃ shapes : Shapes, m.moments ⟨shapes, m.heap⟩ ∧ shapes.Forest ∧
    shapes.Grows m.shapes ∧ m.heap.Laid shapes

theorem Sound.forest {m : Machine} (h : m.Sound) : m.shapes.Forest :=
  h.knowledge.forest

/-- A type admits a value ever after. -/
theorem Sound.admits {before after : Machine} (h : before.Sound) (h' : after.Sound)
    (hg : before.Grows after) {type : Ty} {known : Shapes} (hhas : type.Has known) {v : Value}
    (hadmits : before.Admits type v) : after.Admits type v :=
  Ty.admits_mono hg.shapes h.forest h'.forest hg.heap h.laid hhas hadmits

/-- A change of the machine keeps it sound if what it adds is as it should be. -/
theorem Sound.of_grows {m m' : Machine} (h : m.Sound) (hg : m.Grows m')
    (hk : m'.knowledge.Sound m'.program) (hlaid : m'.heap.Laid m'.shapes)
    (hspecs : ∀ index : Nat, ∀ spec ∈ (m'.caches.getD index .empty).entries,
      spec ∈ (m.caches.getD index .empty).entries ∨ spec.proto.id = index + 1 ∧ m'.SpecOk spec)
    (hstatic : ∀ id : Nat, ∀ type ∈ (m'.sites.get id).static,
      type ∈ (m.sites.get id).static ∨ type.Has m'.shapes)
    (hlinks : ∀ (id : Nat) (link : Linking.Link), (m'.sites.get id).link = some link →
      (m.sites.get id).link = some link ∧
        (m'.sites.get id).truncate = (m.sites.get id).truncate ∨
      link.Valid m' (m'.sites.get id).truncate)
    (hrecorded : ∃ shapes : Shapes, m'.moments ⟨shapes, m'.heap⟩ ∧ shapes.Forest ∧
      shapes.Grows m'.shapes ∧ m'.heap.Laid shapes) : m'.Sound where
  knowledge := hk
  laid := hlaid
  specs index spec hspec := by
    rcases hspecs index spec hspec with hold | hnew
    · obtain ⟨hid, hok⟩ := h.specs index spec hold
      exact ⟨hid, hok.mono hg h.forest hk.forest⟩
    · exact hnew
  static id type htype := by
    rcases hstatic id type htype with hold | hnew
    · exact (h.static id type hold).mono hg.shapes
    · exact hnew
  links id link hlink := by
    rcases hlinks id link hlink with ⟨hold, htruncate⟩ | hnew
    · rw [htruncate]
      exact (h.links id link hold).mono hg h.forest hk.forest
    · exact hnew
  recorded := hrecorded

theorem Grows.setHeap {m : Machine} {heap : Heap} (hg : m.heap.Grows heap) :
    m.Grows (m.setHeap heap) :=
  ⟨fun _ _ hproto => hproto, .refl _, hg, fun hsite => hsite, Or.inl⟩

/-- Changes of the shared objects. -/
theorem Sound.setHeap {m : Machine} (h : m.Sound) {heap : Heap} (hg : m.heap.Grows heap)
    (hlaid : heap.Laid m.shapes) : (m.setHeap heap).Sound :=
  h.of_grows (.setHeap hg) h.knowledge hlaid (fun _ _ hspec => .inl hspec)
    (fun _ _ htype => .inl htype) (fun _ _ hlink => .inl ⟨hlink, rfl⟩)
    ⟨m.shapes, .inr rfl, h.forest, .refl _, hlaid⟩

/-- Every closure has a prototype and one cell per upvalue of it. -/
def Bound (m : Machine) : Prop :=
  ∀ (ref : FunctionRef) (c : Closure), m.heap.closureOf? ref = some c →
    ∃ proto, m.program.prototype? c.proto = some proto ∧ c.cells.length = proto.upvalues.size

/-- What running code does to a sound machine. -/
structure Evolves (before after : Machine) : Prop where
  sound : after.Sound
  grows : before.Grows after
  program : after.program = before.program
  bound : before.Bound → after.Bound

namespace Evolves

variable {m m' : Machine}

theorem refl (h : m.Sound) : m.Evolves m :=
  ⟨h, .refl m, rfl, fun h => h⟩

theorem trans {a b c : Machine} (hab : a.Evolves b) (hbc : b.Evolves c) : a.Evolves c :=
  ⟨hbc.sound, hab.grows.trans hbc.grows, hbc.program.trans hab.program,
    fun h => hbc.bound (hab.bound h)⟩

/-- Changes of what soundness does not look at: engines, the journal, the counters of
compilations and the reads that are remembered. -/
theorem of_same (h : m.Sound) (hprogram : m'.program = m.program)
    (hshapes : m'.knowledge.shapes = m.knowledge.shapes)
    (hreturns : m'.knowledge.returns = m.knowledge.returns) (hheap : m'.heap = m.heap)
    (hsites : m'.sites = m.sites)
    (hcaches : ∀ index : Nat,
      (m'.caches.getD index .empty).entries = (m.caches.getD index .empty).entries)
    (hmoments : m'.moments = m.moments) : m.Evolves m' := by
  have hk : m.knowledge.Evolves m.program m'.knowledge :=
    .of_shapes h.knowledge (by rw [hshapes]; exact .refl h.forest) hreturns
  have hg : m.Grows m' := by
    refine ⟨fun _ _ hproto => by rw [hprogram]; exact hproto, hk.grows, ?_, ?_, ?_⟩
    · rw [hheap]
      exact .refl _
    · rw [hsites]
      exact fun hsite => hsite
    · rw [hmoments]
      exact fun ht => ht
  refine ⟨h.of_grows hg (by rw [hprogram]; exact hk.sound) ?_ ?_ ?_ ?_ ?_, hg, hprogram, ?_⟩
  · rw [hheap, State.shapes, hshapes]
    exact h.laid
  · intro index spec hspec
    rw [hcaches] at hspec
    exact .inl hspec
  · intro id type htype
    rw [hsites] at htype
    exact .inl htype
  · intro id link hlink
    rw [hsites] at hlink ⊢
    exact .inl ⟨hlink, rfl⟩
  · rw [hmoments, hheap, State.shapes, hshapes]
    exact h.recorded
  · intro hbound
    unfold Bound
    rw [hheap, hprogram]
    exact hbound

/-- Changes of the shared objects. -/
theorem setHeap (h : m.Sound) {heap : Heap} (hg : m.heap.Grows heap) (hlaid : heap.Laid m.shapes)
    (hbound : m.Bound → (m.setHeap heap).Bound) : m.Evolves (m.setHeap heap) :=
  ⟨h.setHeap hg hlaid, .setHeap hg, rfl, hbound⟩

/-- Changes of tables and cells alone. -/
theorem setHeap_of_functions (h : m.Sound) {heap : Heap} (hg : m.heap.Grows heap)
    (hlaid : heap.Laid m.shapes) (hfunctions : heap.functions = m.heap.functions) :
    m.Evolves (m.setHeap heap) := by
  refine setHeap h hg hlaid fun hbound ref c hc => hbound ref c ?_
  rw [← hc]
  simp [Heap.closureOf?, Heap.function?, Machine.setHeap, hfunctions]

end Evolves
end Machine
end AdaptiveScript
