import AdaptiveScript.Proofs.Linking.Dispatch
import AdaptiveScript.Proofs.Run.Statement

/-!
# Routines

A routine that is entered for a closure runs the body of the closure's prototype
(`refines_routine`).  What the body needs is there when it starts: the checks of the routine
give the parameters their types, and the types of upvalues hold as long as the program keeps
its promises (`Machine.Kept.admits_supported`).

There are two typings of the body.  One is that of the code.  The other is the one that the
return types of the prototype come from, once they are asked for: it is found for parameters
of any type, so it holds of every run, of those before it was found too.  The results of a
routine are as both of them say (`Specialization.ResultsOk`).
-/

namespace AdaptiveScript

/-! ## Locals at the start -/

namespace Frame

/-- How a local is kept, given its initial value and whether it is captured. -/
def Opens (initial : Value × Bool) : Variable → Prop
  | .plain v => v = initial.1
  | .shared _ => initial.2 = true

theorem length_openLocals : ∀ (initial : List (Value × Bool)) (heap : Heap),
    (openLocals heap initial).1.length = initial.length
  | [], _ => rfl
  | (_, false) :: rest, heap => congrArg (· + 1) (length_openLocals rest heap)
  | (v, true) :: rest, heap => congrArg (· + 1) (length_openLocals rest (heap.addCell v).2)

theorem opens_openLocals : ∀ (initial : List (Value × Bool)) (heap : Heap) {slot : Nat}
    {x : Value × Bool} {kept : Variable}, initial[slot]? = some x →
    (openLocals heap initial).1[slot]? = some kept → Opens x kept
  | [], _, _, _, _, hx, _ => by cases hx
  | (v, false) :: rest, heap, 0, _, _, hx, hkept => by
    cases hx
    cases hkept
    rfl
  | (v, true) :: rest, heap, 0, _, _, hx, hkept => by
    cases hx
    cases hkept
    rfl
  | (_, false) :: rest, heap, _ + 1, _, _, hx, hkept => opens_openLocals rest heap hx hkept
  | (v, true) :: rest, heap, _ + 1, _, _, hx, hkept =>
    opens_openLocals rest (heap.addCell v).2 hx hkept

end Frame

namespace Plain

theorem length_initialLocals (proto : Prototype) (args : List Value) :
    (initialLocals proto args).length = proto.localCount := by
  simp [initialLocals, Prototype.localCount]

/-- How the locals of a function are kept when it starts. -/
theorem opens_initialLocals {heap : Heap} {proto : Prototype} {args : List Value} {slot : Nat}
    {kept : Variable}
    (h : (Frame.openLocals heap (initialLocals proto args)).1[slot]? = some kept) :
    Frame.Opens (if slot < proto.paramCount then args[slot]?.getD .nil else .nil,
      proto.isCaptured slot) kept := by
  have hlt : slot < proto.locals.size := by
    obtain ⟨hlt, -⟩ := List.getElem?_eq_some_iff.1 h
    rwa [Frame.length_openLocals, length_initialLocals] at hlt
  refine Frame.opens_openLocals _ heap ?_ h
  simp [initialLocals, Prototype.isCaptured, hlt]

end Plain

namespace Specialization.Valid

variable {spec : Specialization} {σ : Setting} {returns : List Ty}

theorem initialLocals_eq (h : spec.Valid σ returns) (args : List Value) :
    spec.initialLocals args = Plain.initialLocals σ.proto args := by
  unfold Specialization.initialLocals Plain.initialLocals
  rw [h.captured, h.paramCount, List.zipIdx_map, List.map_map]
  rfl

end Specialization.Valid

/-! ## Upvalues -/

/-- A type of an upvalue that holds and is supported holds as long as promises are kept. -/
theorem Machine.Kept.admits_supported {m m' : Machine} (h : m.Sound) (h' : m'.Sound)
    (hg : m.Grows m') (hkept : m'.Kept) {ref : FunctionRef} {c : Closure} {proto : Prototype}
    (hc : m.heap.closureOf? ref = some c) (hproto : m.program.prototype? c.proto = some proto)
    {types : List Ty} (hsupports : proto.Supports m.shapes types)
    (hhas : ∀ type ∈ types, type.Has m.shapes) {i : Nat} {type : Ty} {cell : CellId}
    (htype : types[i]? = some type) (hcell : c.cells[i]? = some cell)
    (hnow : m.Admits type (m.heap.cell cell)) : m'.Admits type (m'.heap.cell cell) := by
  rcases hsupports i type htype with rfl | ⟨template, htemplate, hreason⟩
  · exact Ty.admits_unknown _ _ _
  · rcases hreason with hsealed | ⟨declared, hdeclared, hsame⟩
    · rw [hkept.cell_eq h h' hg hc hproto htemplate hcell hsealed]
      exact h.admits h' hg (hhas type (List.mem_of_getElem? htype)) hnow
    · have hsame' := Ty.canonical_congr hg.shapes h.forest h'.forest hsame
      refine (Ty.admits_congr h'.forest hsame').symm.trans ?_
      exact hkept.admits h' (hg.heap.closureOf? hc) (hg.program.prototype? hproto) htemplate hcell
        hdeclared

/-- The types that all closures of a prototype share hold as long as promises are kept. -/
theorem Machine.Kept.admits_static {m : Machine} (h : m.Sound) (hkept : m.Kept)
    {ref : FunctionRef} {c : Closure} {proto : Prototype} (hc : m.heap.closureOf? ref = some c)
    (hproto : m.program.prototype? c.proto = some proto) {i : Nat} {cell : CellId}
    (hcell : c.cells[i]? = some cell) :
    m.Admits (proto.staticUpvalueTypes[i]?.getD .unknown) (m.heap.cell cell) := by
  rw [Prototype.getElem?_staticUpvalueTypes]
  cases htemplate : proto.upvalues[i]? with
  | none => exact Ty.admits_unknown _ _ _
  | some template =>
    show m.Admits template.staticType _
    unfold UpvalueTemplate.staticType
    cases hknown : template.knownType with
    | none => exact Ty.admits_unknown _ _ _
    | some declared => exact hkept.admits h hc hproto htemplate hcell hknown

/-! ## The activation of a routine -/

/-- A routine is entered for a closure of a prototype. -/
structure Specialization.Entered (spec : Specialization) (m : Machine) (ref : FunctionRef)
    (closure : Closure) (proto : Prototype) (args : List Value) : Prop where
  sound : m.Sound
  isSpec : m.SpecOk spec
  isClosure : m.heap.closureOf? ref = some closure
  isProto : m.program.prototype? closure.proto = some proto
  proto_id : spec.proto.id = closure.proto.id
  supports : proto.Supports m.shapes spec.signature.upvalues
  passes : spec.Passes m.shapes m.heap closure.cells args

/-- The activation that a routine starts. -/
def Specialization.activation (spec : Specialization) (m : Machine) (engine : EngineId)
    (closure : Closure) (proto : Prototype) (Γ : Typing) (returns : List Ty) (args : List Value) :
    Activation :=
  ⟨m, proto, Γ, returns, spec.constants, engine, closure.cells, args⟩

namespace Specialization.Entered

variable {spec : Specialization} {m : Machine} {ref : FunctionRef} {closure : Closure}
  {proto : Prototype} {args : List Value} {Γ : Typing} {returns : List Ty}

/-- The parameters have the types that they have in the code. -/
theorem admits_param (h : spec.Entered m ref closure proto args)
    (hvalid : spec.Valid (m.setting spec.constants proto Γ) returns) {slot : Nat}
    (hslot : slot < proto.paramCount) : m.Admits (Γ.slot slot) (args[slot]?.getD .nil) := by
  have hlength : slot < spec.signature.args.length := by
    rw [hvalid.argCount]
    exact hslot
  have htaken : (spec.signature.args.take spec.paramCount)[slot]? =
      some spec.signature.args[slot] := by
    rw [List.getElem?_take_of_lt (by rw [hvalid.paramCount]; exact hslot),
      List.getElem?_eq_getElem hlength]
  have hpasses := h.passes.args slot _ htaken
  have htakes := hvalid.params slot hslot
  rw [List.getElem?_eq_getElem hlength, Option.getD_some] at htakes
  rcases htakes with hunknown | hsame
  · rw [show Γ.slot slot = .unknown from hunknown]
    exact Ty.admits_unknown _ _ _
  · exact (Ty.admits_congr h.sound.forest hsame).trans hpasses

/-- The upvalues have the types that they have in the code, for as long as promises are
kept. -/
theorem admits_upvalue (h : spec.Entered m ref closure proto args)
    (hvalid : spec.Valid (m.setting spec.constants proto Γ) returns) {m' : Machine}
    (hg : m.Grows m') (hsound : m'.Sound) (hfair : m'.Fair) {i : Nat} {cell : CellId}
    (hcell : closure.cells[i]? = some cell) : m'.Admits (Γ.upvalue i) (m'.heap.cell cell) := by
  rw [show Γ.upvalue i = spec.signature.upvalues[i]?.getD .unknown from hvalid.upvalues i]
  cases htype : spec.signature.upvalues[i]? with
  | none => exact Ty.admits_unknown _ _ _
  | some type =>
    exact hfair.kept.admits_supported h.sound hsound hg h.isClosure h.isProto h.supports
      hvalid.upvalues_has htype hcell (h.passes.cells i type cell htype hcell)

/-- The typing that the code was emitted under is seen from every machine on. -/
theorem sees_own (h : spec.Entered m ref closure proto args)
    (hvalid : spec.Valid (m.setting spec.constants proto Γ) returns) (engine : EngineId)
    {m' : Machine} (hg : m.Grows m') (hm' : m'.Sound) :
    (spec.activation m engine closure proto Γ returns args).Sees m' ⟨m', Γ, returns⟩ where
  sound := hm'
  grows := .refl m'
  respects := hvalid.respects
  typed := hvalid.typed.mono hg.knowledge h.sound.forest hm'.forest
  params slot hslot :=
    h.sound.admits hm' hg (hvalid.typed.has.slot slot) (h.admits_param hvalid hslot)
  upvalues hg₁ hsound₁ hfair₁ hg' i _ hcell :=
    hsound₁.admits hm' hg' (hvalid.typed.has.upvalue i)
      (h.admits_upvalue hvalid hg₁ hsound₁ hfair₁ hcell)

/-- The typing that the return types of the prototype come from is seen, too. -/
theorem sees_returns (h : spec.Entered m ref closure proto args) {m' later : Machine}
    (hg : m.Grows m') (hg' : m'.Grows later) (hlater : later.Sound) {types : List Ty}
    (hreturns : later.knowledge.returns.lookup closure.proto.id = some types) (engine : EngineId)
    (Γ : Typing) (returns : List Ty) :
    ∃ Γ', (spec.activation m engine closure proto Γ returns args).Sees m' ⟨later, Γ', types⟩ := by
  obtain ⟨index, proto', Γ', hid, hproto', hrespects, hparams, hupvalues, hbody⟩ :=
    hlater.knowledge.returns hreturns
  have hsame : proto' = proto := by
    have hproto := (hg.trans hg').program.prototype? h.isProto
    rw [Program.prototype?_eq hid, hproto'] at hproto
    exact Option.some.inj hproto
  subst hsame
  refine ⟨Γ', hlater, hg', hrespects, hbody, fun slot hslot => ?_,
    fun hg₁ hsound₁ hfair₁ hgLater i cell hcell => ?_⟩
  · show later.Admits (Γ'.slot slot) _
    rw [hparams slot hslot]
    exact Ty.admits_unknown _ _ _
  · refine hsound₁.admits hlater hgLater (hbody.has.upvalue i) ?_
    rw [hupvalues]
    exact hfair₁.kept.admits_static hsound₁ (hg₁.heap.closureOf? h.isClosure)
      (hg₁.program.prototype? h.isProto) hcell

/-- The locals that a routine starts with. -/
theorem opens_locals (hvalid : spec.Valid (m.setting spec.constants proto Γ) returns)
    {engine : EngineId} {cells : List CellId} {heap : Heap} {slot : Nat} {kept : Variable}
    (h : (spec.frame engine cells args heap).1.locals[slot]? = some kept) :
    Frame.Opens (if slot < proto.paramCount then args[slot]?.getD .nil else .nil,
      proto.isCaptured slot) kept := by
  unfold Specialization.frame at h
  rw [hvalid.initialLocals_eq args] at h
  exact Plain.opens_initialLocals (List.getElem?_toArray.symm.trans h)

theorem isFrame_start (hvalid : spec.Valid (m.setting spec.constants proto Γ) returns)
    (engine : EngineId) (closure : Closure) (args : List Value) (heap : Heap) :
    (spec.activation m engine closure proto Γ returns args).IsFrame
      (spec.frame engine closure.cells args heap).1 := by
  refine ⟨rfl, rfl, rfl, hvalid.locals, ?_, fun slot cell hcell => opens_locals hvalid hcell⟩
  unfold Specialization.frame
  rw [hvalid.initialLocals_eq args]
  exact (Frame.length_openLocals _ _).trans (Plain.length_initialLocals proto args)

/-- The parameters have their types when a routine starts. -/
theorem at_start (h : spec.Entered m ref closure proto args)
    (hvalid : spec.Valid (m.setting spec.constants proto Γ) returns) (engine : EngineId) :
    (spec.activation m engine closure proto Γ returns args).At
      (m.setHeap (spec.frame engine closure.cells args m.heap).2)
      (spec.frame engine closure.cells args m.heap).1 (.below proto.paramCount) := by
  have hframe := isFrame_start hvalid engine closure args m.heap
  have hev : m.Evolves (m.setHeap (spec.frame engine closure.cells args m.heap).2) :=
    .setCells h.sound (Frame.cellsOnly_openLocals _ _)
  refine ⟨hframe, hev, fun _ view hview slot hslot hlt => ?_⟩
  have hparam : slot < proto.paramCount := of_decide_eq_true hslot
  by_cases hunknown : view.typing.slot slot = .unknown
  · rw [hunknown]
    exact Ty.admits_unknown _ _ _
  · obtain ⟨v, hv⟩ := hframe.plain_of_ne hview.respects hlt hunknown
    have hvalue : v = args[slot]?.getD .nil := by
      have hopens : v = if slot < proto.paramCount then args[slot]?.getD .nil else .nil :=
        opens_locals hvalid hv
      rwa [if_pos hparam] at hopens
    unfold Frame.read
    rw [hv, hvalue]
    exact hview.params slot hparam

end Specialization.Entered

/-! ## The run of a routine -/

theorem Program.mem_of_prototype? {program : Program} {ref : PrototypeRef} {proto : Prototype}
    (h : program.prototype? ref = some proto) : proto ∈ program.prototypes := by
  unfold Program.prototype? at h
  split at h
  · cases h
  · exact Array.mem_of_getElem? h

/-- The results of a body are as the return types of every view say. -/
theorem Activation.Leaves.resultsFit {act : Activation} {m : Machine} {D D' : Slots}
    {out : Flow × Frame}
    (h : act.Leaves m D D' (Stmt.blockFallsThrough act.proto.body) false out) (hfair : m.Fair) :
    act.ResultsFit m out.1.results := by
  cases h with
  | normal hthrough _ =>
    exact fun view hview i => .of_covers (hview.typed.atEnd hthrough)
      ((Machine.AdmitsAll.nil _).fitsAt _ i)
  | leave hno _ => cases hno
  | ret hfit => exact hfit hfair

/-- The results of a routine are as its own return types say, and as those of its prototype
say, whenever these are found. -/
structure Specialization.ResultsOk (spec : Specialization) (proto : Prototype) (m : Machine)
    (vs : List Value) : Prop where
  own : ∀ ⦃later : Machine⦄, m.Grows later → later.Sound →
    ∀ i, later.FitsAt proto.PassesOn spec.returns vs i
  found : ∀ ⦃later : Machine⦄, m.Grows later → later.Sound → ∀ ⦃types : List Ty⦄,
    later.knowledge.returns.lookup spec.proto.id = some types →
    ∀ i, (spec.signature.truncate = true → i = 0) → later.FitsAt proto.PassesOn types vs i

/-- The results that callers see are as the types say that they see. -/
theorem Machine.fitsAt_visible {m : Machine} {passed : Prop} {returns : List Ty}
    {vs : List Value} (h : ∀ i, m.FitsAt passed returns vs i) (signature : Signature) (i : Nat) :
    m.FitsAt passed (Specialization.visibleReturns signature returns) (cut signature.truncate vs) i := by
  unfold Specialization.visibleReturns cut
  cases signature.truncate with
  | false => exact h i
  | true =>
    exact (Machine.AdmitsAll.cons (h 0).head (.nil m)).fitsAt passed i

/-- Callers learn from the results of a routine what they count on. -/
theorem Specialization.ResultsOk.returns {spec : Specialization} {proto : Prototype}
    {m : Machine} {vs : List Value} (h : spec.ResultsOk proto m vs) {ref : FunctionRef}
    {closure : Closure} (hclosure : m.heap.closureOf? ref = some closure)
    (hid : spec.proto.id = closure.proto.id) :
    m.Returns spec.signature.truncate (.function ref) vs := by
  intro later hg hlater ref' types hadmits hreturns i hi
  obtain ⟨_, c, hcallee, hc, hsame⟩ := Ty.admits_function.1 hadmits
  cases hcallee
  rw [hg.heap.closureOf? hclosure] at hc
  cases hc
  rw [← hsame, ← hid] at hreturns
  exact (h.found hg hlater hreturns i hi).imp fun _ => trivial

/-- **Routines**: a routine that is entered for a closure runs the body of its prototype. -/
theorem refines_routine {again : Responder} {plain : Plain.Caller}
    (hcalls : CallsOk (fun engine site callee args => again (.site engine site callee args)) plain)
    {spec : Specialization} {m : Machine} {ref : FunctionRef} {closure : Closure}
    {proto : Prototype} {args : List Value} (h : spec.Entered m ref closure proto args)
    (rounds : Nat) (engine : EngineId) :
    Refines True m (spec.run again rounds engine closure.cells args)
      (Plain.enter plain rounds engine proto closure.cells args)
      (fun vs us => vs = cut spec.signature.truncate us)
      fun vs m' => m'.Fair → spec.ResultsOk proto m' vs := by
  obtain ⟨proto', Γ, returns, hvalid⟩ := h.isSpec
  have hsame : proto' = proto := by
    have hproto : m.program.prototype? spec.proto = some proto' := hvalid.proto
    rw [Program.prototype?, h.proto_id, ← Program.prototype?, h.isProto] at hproto
    exact (Option.some.inj hproto).symm
  subst hsame
  have hact : (spec.activation m engine closure proto' Γ returns args).Ok :=
    ⟨h.sound, fun hg hm' => h.sees_own hvalid engine hg hm'⟩
  have hat := h.at_start hvalid engine
  have hblock := EmitsBlock.runs hact hcalls rounds hvalid.emits
    (fun hfair => Program.readsAssigned_of_mem hfair.assigned (Program.mem_of_prototype? h.isProto))
    (fun _ _ hview => hview.follows) hat
  unfold Specialization.run Plain.enter
  refine Refines.heap h.sound fun plainHeap halike => ?_
  -- both runs start with the same locals
  obtain ⟨hlocals, hheap⟩ := Frame.openLocals_alike (Plain.initialLocals proto' args) halike
  have hinitial := hvalid.initialLocals_eq args
  have hbare : (spec.frame engine closure.cells args m.heap).1.bare =
      ⟨engine, (Frame.openLocals plainHeap (Plain.initialLocals proto' args)).1.toArray,
        closure.cells, #[], []⟩ := by
    unfold Specialization.frame Frame.bare
    rw [hinitial, hlocals]
    rfl
  have hafter : (spec.frame engine closure.cells args m.heap).2.Alike
      (Frame.openLocals plainHeap (Plain.initialLocals proto' args)).2 := by
    unfold Specialization.frame
    rw [hinitial]
    exact hheap
  refine (Refines.setHeap hat.evolves hafter).bind fun _ m₁ _ hm₁ => ?_
  subst hm₁
  rw [hbare] at hblock
  refine hblock.map (fun out out' hout => ?_) fun out m' hev hleaves hfair => ?_
  · rw [hout]
    rfl
  · have hg := (hat.evolves.trans hev).grows
    have hfits := hleaves.resultsFit hfair
    show spec.ResultsOk proto' m' (cut spec.signature.truncate out.1.results)
    refine ⟨fun later hg' hlater i => ?_, fun later hg' hlater types hreturns i hi => ?_⟩
    · rw [hvalid.returns_eq]
      have hsees := (h.sees_own hvalid engine (hg.trans hg') hlater).earlier hg'
      exact Machine.fitsAt_visible (hfits hsees) spec.signature i
    · rw [h.proto_id] at hreturns
      obtain ⟨Γ', hsees⟩ := h.sees_returns hg hg' hlater hreturns engine Γ returns
      have hfit := hfits hsees i
      unfold Machine.FitsAt at hfit ⊢
      rw [getD_cut hi]
      exact hfit

end AdaptiveScript
