import AdaptiveScript.Proofs.Emission.Soundness
import AdaptiveScript.Proofs.Machine.Sound

/-!
# Compilation keeps machines sound

Asking for a specialization may infer types, freeze shapes, make call sites and add to a
cache.  It changes nothing that a running program could notice (`Machine.Prepares`): no
shared object, no global variable.  Nor does it change anything at the call sites that there
are (`Machine.Quiet`).  What it gives is code of the prototype under the signature asked
for, and it gives code whenever the body is well formed.
-/

namespace AdaptiveScript

/-- What programs see of an engine. -/
structure Realm where
  /-- The value of each global variable. -/
  global : String → Value
  /-- Whether closures can still reach the engine. -/
  alive : Bool

/-- What programs see of an engine. -/
def Engine.realm (e : Engine) : Realm :=
  ⟨e.global, e.alive⟩

namespace Machine

/-- What programs see of the engines. -/
def realms (m : Machine) : Array Realm :=
  m.engines.map Engine.realm

/-- Changes that a running program cannot notice. -/
structure Prepares (before after : Machine) : Prop where
  evolves : before.Evolves after
  heap : after.heap = before.heap
  moments : after.moments = before.moments
  reads : after.reads = before.reads
  realms : after.realms = before.realms

/-- Changes of an engine that programs do not see. -/
theorem realms_modifyEngine (m : Machine) (id : EngineId) {f : Engine → Engine}
    (h : ∀ e, (f e).realm = e.realm) : (m.modifyEngine id f).realms = m.realms := by
  unfold realms modifyEngine
  apply Array.ext
  · simp
  · intro i hi hi'
    simp only [Array.getElem_map, Array.getElem_modify]
    split
    · exact h _
    · rfl

namespace Prepares

variable {m m' : Machine}

theorem refl (h : m.Sound) : m.Prepares m :=
  ⟨.refl h, rfl, rfl, rfl, rfl⟩

theorem trans {a b c : Machine} (hab : a.Prepares b) (hbc : b.Prepares c) : a.Prepares c :=
  ⟨hab.evolves.trans hbc.evolves, hbc.heap.trans hab.heap, hbc.moments.trans hab.moments,
    hbc.reads.trans hab.reads, hbc.realms.trans hab.realms⟩

instance : Trans Prepares Prepares Prepares :=
  ⟨trans⟩

theorem sound (h : m.Prepares m') : m'.Sound :=
  h.evolves.sound

theorem note (h : m.Sound) (event : Event) : m.Prepares (m.note event) :=
  ⟨.of_same h rfl rfl rfl rfl rfl (fun _ => rfl) rfl, rfl, rfl, rfl, rfl⟩

theorem recordCall (h : m.Sound) (engine : EngineId) (id : SiteId) (callee : Value)
    (args : List Value) : m.Prepares (m.recordCall engine id callee args) :=
  ⟨.of_same h rfl rfl rfl rfl rfl (fun _ => rfl) rfl, rfl, rfl, rfl, rfl⟩

theorem recordEntry (h : m.Sound) (before : Ghost State) (engine : EngineId) (id : SiteId)
    (callee : Value) (args : List Value) (result : Except Stop Linking.Outcome) :
    m.Prepares (m.recordEntry before engine id callee args result) :=
  ⟨.of_same h rfl rfl rfl rfl rfl (fun _ => rfl) rfl, rfl, rfl, rfl, rfl⟩

theorem modifyEngine (h : m.Sound) (id : EngineId) {f : Engine → Engine}
    (hf : ∀ e, (f e).realm = e.realm) : m.Prepares (m.modifyEngine id f) :=
  ⟨.of_same h rfl rfl rfl rfl rfl (fun _ => rfl) rfl, rfl, rfl, rfl, realms_modifyEngine m id hf⟩

end Prepares

/-- Changes that do nothing at call sites, except that sites are made. -/
structure Quiet (before after : Machine) : Prop where
  sites : before.sites.Extends after.shapes after.sites
  calls : after.calls = before.calls

namespace Quiet

variable {m m' : Machine}

theorem of_same (hsites : m'.sites = m.sites) (hcalls : m'.calls = m.calls) : m.Quiet m' :=
  ⟨by rw [hsites]; exact .refl _ _, hcalls⟩

theorem refl (m : Machine) : m.Quiet m :=
  of_same rfl rfl

theorem trans {a b c : Machine} (hab : a.Quiet b) (hg : b.shapes.Grows c.shapes)
    (hbc : b.Quiet c) : a.Quiet c :=
  ⟨hab.sites.trans hg hbc.sites, hbc.calls.trans hab.calls⟩

end Quiet

/-- What compilation does to a machine. -/
structure Compiles (before after : Machine) : Prop where
  prepares : before.Prepares after
  quiet : before.Quiet after
  config : ∀ id, (after.engine id).config = (before.engine id).config

/-- What a change leaves alone in every engine is as it was. -/
theorem engine_modifyEngine {β : Type} (p : Engine → β) (m : Machine) (id : EngineId)
    {f : Engine → Engine} (hf : ∀ e, p (f e) = p e) (other : EngineId) :
    p ((m.modifyEngine id f).engine other) = p (m.engine other) := by
  simp only [State.engine, modifyEngine, Array.getD_eq_getD_getElem?, Array.getElem?_modify]
  split
  · cases m.engines[other]? with
    | none => rfl
    | some e => exact hf e
  · rfl

/-- Changes of an engine that leave its configuration alone. -/
theorem config_modifyEngine (m : Machine) (id : EngineId) {f : Engine → Engine}
    (hf : ∀ e, (f e).config = e.config) (other : EngineId) :
    ((m.modifyEngine id f).engine other).config = (m.engine other).config :=
  engine_modifyEngine Engine.config m id hf other

namespace Compiles

variable {m m' : Machine}

theorem refl (h : m.Sound) : m.Compiles m :=
  ⟨.refl h, .refl m, fun _ => rfl⟩

theorem trans {a b c : Machine} (hab : a.Compiles b) (hbc : b.Compiles c) : a.Compiles c :=
  ⟨hab.prepares.trans hbc.prepares, hab.quiet.trans hbc.prepares.evolves.grows.shapes hbc.quiet,
    fun id => (hbc.config id).trans (hab.config id)⟩

instance : Trans Compiles Compiles Compiles :=
  ⟨trans⟩

theorem sound (h : m.Compiles m') : m'.Sound :=
  h.prepares.sound

theorem evolves (h : m.Compiles m') : m.Evolves m' :=
  h.prepares.evolves

theorem note (h : m.Sound) (event : Event) : m.Compiles (m.note event) :=
  ⟨.note h event, .of_same rfl rfl, fun _ => rfl⟩

theorem recordDemand (h : m.Sound) (before : Ghost State) (engine : EngineId)
    (proto : PrototypeRef) (signature : Signature) (result : Except CompileError Specialization) :
    m.Compiles (m.recordDemand before engine proto signature result) :=
  ⟨⟨.of_same h rfl rfl rfl rfl rfl (fun _ => rfl) rfl, rfl, rfl, rfl, rfl⟩, .of_same rfl rfl,
    fun _ => rfl⟩

theorem modifyEngine (h : m.Sound) (id : EngineId) {f : Engine → Engine}
    (hrealm : ∀ e, (f e).realm = e.realm) (hconfig : ∀ e, (f e).config = e.config) :
    m.Compiles (m.modifyEngine id f) :=
  ⟨.modifyEngine h id hrealm, .of_same rfl rfl, config_modifyEngine m id hconfig⟩

end Compiles
end Machine

/-! ## Remembering -/

theorem run_remembering {ε α : Type} (x : ExceptT ε (StateM Machine) α)
    (remember : Except ε α → Machine → Machine) (m : Machine) :
    (remembering x remember).run.run m =
      ((x.run.run m).1, remember (x.run.run m).1 (x.run.run m).2) :=
  rfl

/-- What is said about a computation holds if it is remembered as well. -/
theorem Yields.remembering {ε α : Type} {R : Machine → Machine → Prop} {m : Machine}
    {x : ExceptT ε (StateM Machine) α} {ok : Prop} {Q : α → Machine → Prop}
    {remember : Except ε α → Machine → Machine} (hx : Yields R m x ok Q)
    (h : ∀ result m', R m m' → R m (remember result m') ∧
      ∀ a, Q a m' → Q a (remember result m')) :
    Yields R m (AdaptiveScript.remembering x remember) ok Q :=
  ⟨(h _ _ hx.evolves).1, fun heq => (h _ _ hx.evolves).2 _ (hx.post heq), hx.total⟩

/-! ## Emission in an engine -/

namespace Linking.Sites

theorem get_of_size_lt {sites : Sites} {id : Nat} (h : sites.sites.size < id) :
    sites.get id = .fresh [] false := by
  cases id with
  | zero => rfl
  | succ index =>
    have hle : ¬ index < sites.sites.size := by omega
    simp [get, hle]

/-- A site after emission is as it was before, or fresh. -/
theorem Extends.get_cases {shapes : Shapes} {before after : Sites}
    (h : Extends shapes before after) (id : Nat) : after.get id = before.get id ∨
    ∃ static truncate, after.get id = .fresh static truncate ∧
      ∀ type ∈ static, type.Has shapes := by
  by_cases hold : id ≤ before.sites.size
  · exact .inl (h.get_eq hold)
  · by_cases hnew : id ≤ after.sites.size
    · exact .inr (h.fresh (Nat.lt_of_not_le hold) hnew)
    · refine .inr ⟨[], false, get_of_size_lt (Nat.lt_of_not_le hnew), ?_⟩
      exact fun type htype => by cases htype

end Linking.Sites

namespace Machine

/-- The machine after code was emitted in one of its engines. -/
theorem Compiles.of_emitter {m : Machine} (h : m.Sound) (engine : EngineId) {s s' : Emitter}
    (hk : s.knowledge = m.knowledge) (hsites : s.sites = m.sites)
    (hev : s.Evolves m.program s') :
    m.Compiles { m.modifyEngine engine fun e => { e with registry := s'.registry } with
      knowledge := s'.knowledge
      sites := s'.sites } := by
  have hknowledge := hev.knowledge
  rw [hk] at hknowledge
  have hextends := hev.sites
  rw [hsites] at hextends
  have hg : m.Grows { m.modifyEngine engine fun e => { e with registry := s'.registry } with
      knowledge := s'.knowledge
      sites := s'.sites } :=
    ⟨fun _ _ hproto => hproto, hknowledge.grows, .refl _, hextends.grows, fun ht => ht⟩
  have hsound := h.of_grows hg hknowledge.sound
    (h.laid.mono hknowledge.grows.shapes h.forest hknowledge.sound.forest)
    (fun _ _ hspec => .inl hspec) (fun id type htype => ?_) (fun id link hlink => ?_) ?_
  · exact ⟨⟨⟨hsound, hg, rfl, fun hbound => hbound⟩, rfl, rfl, rfl,
      realms_modifyEngine m engine (f := fun e => { e with registry := s'.registry }) fun _ => rfl⟩,
      ⟨hextends, rfl⟩, config_modifyEngine m engine
        (f := fun e => { e with registry := s'.registry }) fun _ => rfl⟩
  · rcases hextends.get_cases id with hget | ⟨static, truncate, hget, hhas⟩
    · exact .inl (hget ▸ htype)
    · change type ∈ (s'.sites.get id).static at htype
      rw [hget] at htype
      exact .inr (hhas type htype)
  · rcases hextends.get_cases id with hget | ⟨static, truncate, hget, hhas⟩
    · change (s'.sites.get id).link = some link at hlink
      rw [hget] at hlink
      exact .inl ⟨hlink, congrArg Linking.Site.truncate hget⟩
    · change (s'.sites.get id).link = some link at hlink
      rw [hget] at hlink
      cases hlink
  · obtain ⟨shapes, hmoment, hforest, hgrows, hlaid⟩ := h.recorded
    exact ⟨shapes, hmoment, hforest, hgrows.trans hknowledge.grows.shapes, hlaid⟩

end Machine

namespace Compile

variable {α : Type} {m : Machine}

/-- What emission in an engine starts from. -/
def start (m : Machine) (engine : EngineId) : Emitter :=
  ⟨m.knowledge, (m.engine engine).registry, m.sites, #[], #[]⟩

theorem run_emit (engine : EngineId) (e : Emit α) (m : Machine) :
    (emit engine e).run.run m =
      let r := e.run.run (start m engine)
      (r.1.map fun a => (a, r.2.constants, r.2.owned),
        { m.modifyEngine engine fun e => { e with registry := r.2.registry } with
          knowledge := r.2.knowledge
          sites := r.2.sites }) := by
  unfold emit start
  rw [run_get_bind]
  generalize e.run.run _ = r
  obtain ⟨result, s⟩ := r
  cases result <;> rfl

/-- Emission in an engine. -/
theorem yields_emit (h : m.Sound) (engine : EngineId) {e : Emit α} {ok : Prop}
    {Q : α → Emitter → Prop} (he : Emit.Yields m.program (start m engine) e ok Q) :
    Yields Machine.Compiles m (emit engine e) ok fun r m' => ∃ s', Q r.1 s' ∧
      s'.knowledge = m'.knowledge ∧ s'.sites = m'.sites ∧ s'.constants = r.2.1 := by
  have hcompiles := Machine.Compiles.of_emitter (s := start m engine) h engine rfl rfl he.evolves
  have hrun := run_emit engine e m
  refine ⟨by rw [hrun]; exact hcompiles, fun heq => ?_, fun hok => ?_⟩
  · rw [hrun] at heq ⊢
    dsimp only at heq ⊢
    cases hresult : (e.run.run (start m engine)).1 with
    | error error =>
      rw [hresult] at heq
      cases heq
    | ok a =>
      rw [hresult] at heq
      cases heq
      exact ⟨_, he.post hresult, rfl, rfl, rfl⟩
  · obtain ⟨a, ha⟩ := he.total hok
    rw [hrun]
    dsimp only
    rw [ha]
    exact ⟨_, rfl⟩

/-- The types that inference finds for a body and the code emitted under them. -/
theorem yields_body {program : Program} {s : Emitter} (h : s.knowledge.Sound program)
    {index : Nat} {proto : Prototype} (hproto : program.prototypes[index]? = some proto)
    {signature : Signature} (hargs : ∀ type ∈ signature.args, type.Has s.knowledge.shapes)
    (hupvalues : ∀ type ∈ signature.upvalues, type.Has s.knowledge.shapes)
    (maxIterations : Nat) :
    Emit.Yields program s (body program proto signature maxIterations)
      (Stmt.BlockWellFormed program proto false proto.body) fun r s' =>
        r.1.proto = proto ∧
        (∀ slot < proto.paramCount, r.1.typing.Takes s'.knowledge.shapes slot
          (signature.args[slot]?.getD .nil)) ∧
        (∀ i, r.1.typing.upvalue i = signature.upvalues[i]?.getD .unknown) ∧
        BodyTyped s'.knowledge r.1.typing r.1.returnTypes proto.body ∧
        EmitsBlock (s'.setting ⟨program, r.1⟩) false proto.body r.2 := by
  have hanalyze := Inference.gives_analyze
    (Inference.returnTypesOf_sound program (max maxIterations 1)) h hproto signature.args
    maxIterations hargs hupvalues
  show Emit.Yields program s (do
    let types ← Emit.learn (Inference.analyze
      (Inference.returnTypesOf program (max maxIterations 1)) proto.body
      (Inference.ofTypes proto signature.args signature.upvalues maxIterations))
    let steps ← Emit.block ⟨program, types⟩ false proto.body
    return (types, steps)) _ _
  refine (Emit.yields_learn hanalyze).seq fun types s₁ hev₁ hpost => ?_
  obtain ⟨hsame, hparams, hupvalueTypes, htyped⟩ := hpost
  have hready : Scope.Ready ⟨program, types⟩ s₁ := ⟨hev₁.knowledge.sound, htyped.has⟩
  have hblock := Emit.yields_block ⟨program, types⟩ false proto.body hready
    ((h.inScope.body hproto).mono fun _ ht => ht.mono hev₁.knowledge.grows.shapes)
  refine hblock.bind (fun hwf => ⟨?_, trivial⟩) fun steps s₂ hev₂ hsteps => ?_
  · rw [show Scope.proto ⟨program, types⟩ = proto from hsame]
    exact hwf
  · have hforest := hev₁.knowledge.sound.forest
    refine .pure (.refl hev₂.knowledge.sound) ⟨hsame, fun slot hslot => ?_, hupvalueTypes,
      htyped.mono hev₂.knowledge.grows hforest hev₂.knowledge.sound.forest, hsteps⟩
    exact (hparams slot hslot).mono hev₂.knowledge.grows.shapes hforest
      hev₂.knowledge.sound.forest

/-! ## Specializations -/

/-- Compilation gives code of the prototype under the signature. -/
theorem yields_compile (h : m.Sound) (engine : EngineId) {index : Nat} {proto : Prototype}
    (hproto : m.program.prototypes[index]? = some proto) {signature : Signature}
    (hcount : signature.args.length = proto.paramCount)
    (hargs : ∀ type ∈ signature.args, type.Has m.shapes)
    (hupvalues : ∀ type ∈ signature.upvalues, type.Has m.shapes) :
    Yields Machine.Compiles m (compile engine proto signature)
      (Stmt.BlockWellFormed m.program proto false proto.body) fun spec m' =>
        spec.signature = signature ∧ spec.proto = proto.ref ∧ m'.SpecOk spec := by
  have hid : proto.ref.id = index + 1 := h.knowledge.inScope.id_eq hproto
  have hbody := yields_body (s := start m engine) h.knowledge hproto hargs hupvalues
    (m.engine engine).config.maxInferenceIterations
  refine .of_get ?_
  refine (yields_emit h engine hbody).bind (fun hwf => ⟨hwf, trivial⟩)
    fun ((types, steps), constants, sites) m₁ hprep₁ hpost => ?_
  obtain ⟨s', ⟨hsame, hparams, hupvalueTypes, htyped, hemits⟩, hk, hsites, hconstants⟩ := hpost
  dsimp only at hsame hparams hupvalueTypes htyped hemits hconstants
  have hprogram : m₁.program = m.program := hprep₁.evolves.program
  have hhas {types : List Ty} (hold : ∀ type ∈ types, type.Has m.shapes) :
      ∀ type ∈ types, type.Has m₁.shapes :=
    fun type htype => (hold type htype).mono hprep₁.evolves.grows.shapes
  rw [hk] at hparams htyped
  -- the setting of the code is the one of the machine
  have hsetting : s'.setting ⟨m.program, types⟩ = m₁.setting constants proto types.typing := by
    simp only [Emitter.setting, Machine.setting, hk, hsites, hconstants, hprogram, Scope.proto,
      hsame]
  rw [hsetting] at hemits
  have hvalid : Specialization.Valid
      { proto := proto.ref
        signature
        returns := Specialization.visibleReturns signature types.returnTypes
        name := Specialization.routineName proto.ref.name signature
        paramCount := proto.paramCount
        captured := proto.locals.toList.map LocalDecl.captured
        locals := (List.range proto.localCount).map types.varType
        constants
        body := steps
        sites := sites.toList } (m₁.setting constants proto types.typing) types.returnTypes := by
    refine ⟨rfl, ?_, rfl, rfl, rfl, rfl, hcount, hhas hargs, hhas hupvalues,
      Inference.respects_typing hsame, hparams, hupvalueTypes, htyped, hemits⟩
    show m₁.program.prototype? proto.ref = some proto
    rw [hprogram, Program.prototype?_eq hid, hproto]
  refine (Yields.modify (.modifyEngine hprep₁.sound engine (fun _ => rfl) fun _ => rfl)).seq
    fun _ m₂ hprep₂ _ => ?_
  refine (Yields.modify (.note hprep₂.sound _)).seq fun _ m₃ hprep₃ _ => ?_
  have hok₁ : m₁.SpecOk _ := ⟨proto, types.typing, types.returnTypes, hvalid⟩
  refine .pure (.refl hprep₃.sound) ⟨rfl, rfl, ?_⟩
  exact hok₁.mono (hprep₂.trans hprep₃).evolves.grows hprep₁.sound.forest hprep₃.sound.forest

end Compile

/-- Changes of a cache that add nothing but specializations of its prototype. -/
theorem Machine.Compiles.modifyCache {m : Machine} (h : m.Sound) (ref : PrototypeRef)
    {f : Cache → Cache} (hf : ∀ c, ∀ spec ∈ (f c).entries,
      spec ∈ c.entries ∨ spec.proto.id = ref.id - 1 + 1 ∧ m.SpecOk spec) :
    m.Compiles (m.modifyCache ref f) := by
  have hg : m.Grows (m.modifyCache ref f) :=
    ⟨fun _ _ hproto => hproto, .refl _, .refl _, fun hsite => hsite, fun ht => ht⟩
  have hsound := h.of_grows hg h.knowledge h.laid (fun index spec hspec => ?_)
    (fun _ _ htype => .inl htype) (fun _ _ hlink => .inl ⟨hlink, rfl⟩) h.recorded
  · exact ⟨⟨⟨hsound, hg, rfl, fun hbound => hbound⟩, rfl, rfl, rfl, rfl⟩, .of_same rfl rfl,
      fun _ => rfl⟩
  · change spec ∈ ((m.caches.modify (ref.id - 1) f).getD index .empty).entries at hspec
    rw [Array.getD_eq_getD_getElem?, Array.getElem?_modify] at hspec
    rw [Array.getD_eq_getD_getElem?]
    split at hspec
    · next hindex =>
      subst hindex
      cases hc : m.caches[ref.id - 1]? with
      | none =>
        rw [hc] at hspec
        exact .inl hspec
      | some c =>
        rw [hc] at hspec
        exact hf c spec hspec
    · exact .inl hspec

namespace Compile

variable {m : Machine}

theorem yields_serve (h : m.Sound) (engine : EngineId) {index : Nat} {proto : Prototype}
    (hproto : m.program.prototypes[index]? = some proto) {signature : Signature}
    (hcount : signature.args.length = proto.paramCount)
    (hargs : ∀ type ∈ signature.args, type.Has m.shapes)
    (hupvalues : ∀ type ∈ signature.upvalues, type.Has m.shapes) :
    Yields Machine.Compiles m (serve engine proto signature)
      (Stmt.BlockWellFormed m.program proto false proto.body) fun spec m' =>
        spec.signature = signature ∧ spec.proto.id = proto.ref.id ∧ m'.SpecOk spec := by
  have hid : proto.ref.id = index + 1 := h.knowledge.inScope.id_eq hproto
  have hcache : m.cache proto.ref = m.caches.getD index .empty := by simp [State.cache, hid]
  refine .of_get ?_
  rw [hcache]
  cases hlookup : (m.caches.getD index .empty).lookup? signature with
  | some spec =>
    -- what is found was compiled for this signature
    obtain ⟨hspec, hok⟩ := h.specs index spec (List.mem_of_find?_eq_some hlookup)
    have hsignature : spec.signature = signature := by simpa using List.find?_some hlookup
    exact .pure (.refl h) ⟨hsignature, hspec.trans hid.symm, hok⟩
  | none =>
    refine (Yields.modify (.modifyCache h proto.ref fun c spec hspec => .inl hspec)).seq
      fun _ m₁ hprep₁ _ => ?_
    refine (Yields.modify (.modifyEngine hprep₁.sound engine (fun _ => rfl) fun _ => rfl)).seq
      fun _ m₂ hprep₂ _ => ?_
    refine (Yields.modify (.note hprep₂.sound _)).seq fun _ m₃ hprep₃ _ => ?_
    have hprep := (hprep₁.trans hprep₂).trans hprep₃
    have hprogram : m₃.program = m.program := hprep.evolves.program
    have hshapes := hprep.evolves.grows.shapes
    refine (yields_compile hprep₃.sound engine (by rw [hprogram]; exact hproto) hcount
      (fun type htype => (hargs type htype).mono hshapes)
      (fun type htype => (hupvalues type htype).mono hshapes)).bind
      (fun hwf => ⟨by rw [hprogram]; exact hwf, trivial⟩) fun spec m₄ hprep₄ ⟨hsig, href, hok⟩ => ?_
    have hinsert : m₄.Compiles (m₄.modifyCache proto.ref fun c => c.insert spec) := by
      refine .modifyCache hprep₄.sound proto.ref fun c other hother => ?_
      rcases List.mem_cons.1 hother with rfl | hold
      · refine .inr ⟨?_, hok⟩
        rw [href, hid]
        rfl
      · exact .inl hold
    refine (Yields.modify hinsert).seq fun _ m₅ hprep₅ _ => ?_
    exact .pure (.refl hprep₅.sound) ⟨hsig, by rw [href],
      hok.mono hprep₅.evolves.grows hprep₄.sound.forest hprep₅.sound.forest⟩

/-- A request is served, and remembered. -/
theorem run_specialize (m : Machine) (engine : EngineId) (proto : Prototype)
    (signature : Signature) : (specialize engine proto signature).run.run m =
      (((serve engine proto signature).run.run m).1,
        ((serve engine proto signature).run.run m).2.recordDemand (.of m.toState) engine proto.ref
          signature ((serve engine proto signature).run.run m).1) :=
  rfl

/-- A request for a specialization gives code of the prototype under the signature. -/
theorem yields_specialize (h : m.Sound) (engine : EngineId) {index : Nat} {proto : Prototype}
    (hproto : m.program.prototypes[index]? = some proto) {signature : Signature}
    (hcount : signature.args.length = proto.paramCount)
    (hargs : ∀ type ∈ signature.args, type.Has m.shapes)
    (hupvalues : ∀ type ∈ signature.upvalues, type.Has m.shapes) :
    Yields Machine.Compiles m (specialize engine proto signature)
      (Stmt.BlockWellFormed m.program proto false proto.body) fun spec m' =>
        spec.signature = signature ∧ spec.proto.id = proto.ref.id ∧ m'.SpecOk spec := by
  have hserve := yields_serve h engine hproto hcount hargs hupvalues
  refine .of_get (hserve.remembering fun result m' hcompiles => ?_)
  have hrecord := Machine.Compiles.recordDemand hcompiles.sound (.of m.toState) engine proto.ref
    signature result
  refine ⟨hcompiles.trans hrecord, fun spec ⟨hsig, href, hok⟩ => ⟨hsig, href, ?_⟩⟩
  exact hok.mono hrecord.evolves.grows hcompiles.sound.forest hrecord.sound.forest

end Compile
end AdaptiveScript
