import AdaptiveScript.Proofs.Inference.Expression
import AdaptiveScript.Proofs.Run.Frame
import AdaptiveScript.Proofs.Run.Operators

/-!
# Expressions

Code of an expression does what the expression does in plain execution, and gives a value of
every type that the expression has (`Emits.refines`).  The proof follows the relation between
expressions and their code; what calls do is assumed (`CallsOk`).
-/

namespace AdaptiveScript

/-! ## Steps -/

namespace Refines

variable {α : Type} {pre : Prop} {m : Machine} {Q : α → Machine → Prop}

/-- Reading something from the shared objects. -/
theorem readHeap {f : Heap → α} (h : m.Sound)
    (hf : ∀ plain : Heap, m.heap.Alike plain → f plain = f m.heap) (hq : Q (f m.heap) m) :
    Refines pre m (do return f (← Run.heap)) (do return f (← Plain.heap)) (fun a b => b = a) Q :=
  heap h fun plain halike => pure h (hf plain halike) hq

/-- Reading something from the shared objects, with an error. -/
theorem tryHeap {f g : Heap → Except RuntimeError α} (h : m.Sound)
    (hf : ∀ plain : Heap, m.heap.Alike plain → g plain = f m.heap)
    (hviolation : ∀ e, f m.heap = .error e → e.isViolation = false)
    (hq : ∀ a, f m.heap = .ok a → Q a m) :
    Refines pre m (do Run.ofExcept (f (← Run.heap))) (do Plain.ofExcept (g (← Plain.heap)))
      (fun a b => b = a) Q := by
  refine heap h fun plain halike => ?_
  rw [hf plain halike]
  exact ofExcept h hviolation hq

/-- Unboxing a value of a known type. -/
theorem narrow {type : Ty} {v : Value} {Q : Value → Machine → Prop} (h : m.Sound)
    (hadmits : m.Fair → m.Admits type v) (hq : Q v m) :
    Refines pre m (Run.ofExcept (type.narrowed v)) (Pure.pure v) (fun a b => b = a) Q := by
  cases hnarrowed : type.narrowed v with
  | ok u =>
    cases Ty.eq_of_narrowed hnarrowed
    exact pure h rfl hq
  | error e =>
    -- this happens only if promises are not kept
    have hunfair : ¬ m.Fair := by
      intro hfair
      have hok := Ty.narrowed_eq_ok (hadmits hfair)
      rw [hnarrowed] at hok
      cases hok
    exact ⟨.refl h, .refl m, fun heq => (by cases heq), fun hfair => absurd hfair hunfair,
      fun hfair => absurd hfair hunfair, fun _ hfair => absurd hfair hunfair⟩

/-- A value of a known type is unboxed after it was computed. -/
theorem narrowed {x : Run Value} {p : Plain Value} {type : Ty} {Q : Value → Machine → Prop}
    (hx : Refines pre m x p (fun v u => u = v) Q)
    (hadmits : ∀ v m₁, m.Evolves m₁ → Q v m₁ → m₁.Fair → m₁.Admits type v) :
    Refines pre m (do Run.ofExcept (type.narrowed (← x))) p (fun v u => u = v) Q := by
  rw [← bind_pure p]
  exact hx.bind fun v m₁ hev hv => narrow hev.sound (hadmits v m₁ hev hv) hv

end Refines

/-! ## The state of an activation -/

namespace Activation

variable (act : Activation)

/-- An activation has come to a machine with a frame, and some locals are assigned. -/
structure At (m : Machine) (frame : Frame) (D : Slots) : Prop where
  isFrame : act.IsFrame frame
  evolves : act.entry.Evolves m
  typed : m.Fair → act.Typed m frame D

/-- A value has all types that an expression has. -/
def Fits (m : Machine) (e : Expr) (v : Value) : Prop :=
  ∀ ⦃view : View⦄, act.Sees m view → ∀ ⦃type : Ty⦄,
    HasType view.machine.knowledge view.typing e type → view.machine.Admits type v

/-- Values have all types that some expressions have. -/
def AllFit (m : Machine) (es : List Expr) (vs : List Value) : Prop :=
  ∀ ⦃view : View⦄, act.Sees m view → ∀ ⦃types : List Ty⦄,
    HasTypes view.machine.knowledge view.typing es types → view.machine.AdmitsAll types vs

variable {act}

theorem At.sound {m : Machine} {frame : Frame} {D : Slots}
    (h : act.At m frame D) : m.Sound :=
  h.evolves.sound

theorem At.mono {m m' : Machine} {frame : Frame} {D : Slots}
    (h : act.At m frame D) (hev : m.Evolves m') : act.At m' frame D :=
  ⟨h.isFrame, h.evolves.trans hev, fun hfair =>
    Typed.mono hev.grows h.isFrame (h.typed (hfair.of_evolves hev))⟩

/-- The activation sees the typing of its code. -/
theorem At.own {m : Machine} {frame : Frame} {D : Slots} (h : act.At m frame D) (hact : act.Ok) :
    act.Sees m (act.ownView m) :=
  hact.own h.evolves.grows h.sound

/-- A value keeps its types. -/
theorem Fits.mono {m m' : Machine} (hev : m.Evolves m') {e : Expr} {v : Value}
    (h : act.Fits m e v) : act.Fits m' e v :=
  fun _ hview _ htype => h (hview.earlier hev.grows) htype

/-- A value has the types that its expression has under the typing of the code. -/
theorem Fits.own (hact : act.Ok) {m : Machine} (hev : act.entry.Evolves m) {e : Expr} {v : Value}
    (h : act.Fits m e v) {type : Ty} (htype : HasType act.entry.knowledge act.typing e type) :
    m.Admits type v :=
  h (hact.own hev.grows hev.sound)
    (htype.mono hev.grows.knowledge hact.sound.forest hev.sound.forest)

end Activation

/-! ## Calls -/

/-- What a call site keeps of some results. -/
def cut (truncate : Bool) (vs : List Value) : List Value :=
  if truncate then [vs.headD .nil] else vs

theorem headD_cut (truncate : Bool) (vs : List Value) :
    (cut truncate vs).headD .nil = vs.headD .nil := by
  cases truncate <;> rfl

theorem getD_cut {truncate : Bool} {i : Nat} (h : truncate = true → i = 0) (vs : List Value) :
    (cut truncate vs)[i]?.getD .nil = vs[i]?.getD .nil := by
  cases truncate with
  | false => rfl
  | true =>
    rw [h rfl]
    cases vs <;> rfl

/-- At one place, values are as types say; what is missing is nil.  Where a return passes on
the results of a call (`passed`), nothing may be concluded from a type that is nil, unless it
is the first: there may be more results than types were found. -/
def Machine.FitsAt (m : Machine) (passed : Prop) (types : List Ty) (vs : List Value) (i : Nat) :
    Prop :=
  m.Admits (types[i]?.getD .nil) (vs[i]?.getD .nil) ∨
    (0 < i ∧ types[i]?.getD .nil = .nil ∧ passed)

theorem Machine.FitsAt.head {m : Machine} {passed : Prop} {types : List Ty} {vs : List Value}
    (h : m.FitsAt passed types vs 0) : m.Admits (types.headD .nil) (vs.headD .nil) := by
  rcases h with h | ⟨hlt, -⟩
  · cases types <;> cases vs <;> exact h
  · cases hlt

/-- Results of a function are as its return types say, whenever these are found. -/
def Machine.Returns (m : Machine) (truncate : Bool) (callee : Value) (vs : List Value) : Prop :=
  ∀ ⦃later : Machine⦄, m.Grows later → later.Sound → ∀ ⦃ref : PrototypeRef⦄ ⦃types : List Ty⦄,
    later.Admits (.function ref) callee → later.knowledge.returns.lookup ref.id = some types →
    ∀ i, (truncate = true → i = 0) → later.FitsAt True types vs i

/-- Calls through sites do what plain calls do if their arguments have the types of the site,
and results have the return types that are found for the callee. -/
def CallsOk (caller : Caller) (plain : Plain.Caller) : Prop :=
  ∀ {m : Machine}, m.Sound → ∀ (engine : EngineId) {id : Nat} {static : List Ty}
    {truncate : Bool}, m.sites.Has id static truncate → ∀ (callee : Value) (args : List Value),
    Refines (m.AdmitsAll static args) m (caller engine id callee args) (plain engine callee args)
      (fun vs us => vs = cut truncate us) fun vs m' => m'.Fair → m'.Returns truncate callee vs

/-! ## Variables -/

section Variables

variable {act : Activation} {m : Machine} {frame : Frame} {D : Slots} {pre : Prop}

/-- Reading a local that is assigned gives a value of its type. -/
theorem refines_readLocal (hact : act.Ok) (hat : act.At m frame D) {slot : Nat}
    (hslot : slot < act.proto.localCount) (hD : act.entry.Fair → D slot = true) :
    Refines pre m (Run.readLocal frame slot) (do return frame.bare.read (← Plain.heap) slot)
      (fun v u => u = v) fun v m' => m'.Fair → act.Fits m' (.slot slot) v := by
  have hev : m.Evolves (m.observe (frame.typeOf slot) (frame.read m.heap slot)) :=
    .of_same hat.sound rfl rfl rfl rfl rfl (fun _ => rfl) rfl
  have htyped (hfair : m.Fair) {view : View} (hview : act.Sees m view) :
      view.machine.Admits (view.typing.slot slot) (frame.read m.heap slot) :=
    hat.typed hfair hview slot (hD (hfair.of_evolves hat.evolves)) hslot
  refine ⟨hev, .of_quiet hev (.of_same rfl rfl), ?_, ?_, fun _ _ heq => (by cases heq), ?_⟩
  · rintro v ⟨⟩ hfair view hview type htype
    cases htype with
    | any => exact Ty.admits_unknown _ _ _
    | slot => exact htyped (hfair.of_evolves hev) (hview.earlier hev.grows)
  · rintro hfair hreads t type v (hold | ⟨rfl, rfl, rfl⟩)
    · exact hreads t type v hold
    · rw [hat.isFrame.typeOf hslot]
      exact htyped (hfair.of_evolves hev) (hat.own hact)
  · rintro - - - w w' outcome halike ⟨⟩
    exact ⟨.ok (frame.read_bare halike.heap slot), halike.program, halike.heap, halike.realms⟩

/-- Reading an upvalue gives a value of its type. -/
theorem refines_upvalue (hat : act.At m frame D) (i : Nat) :
    Refines pre m
      (do let cell ← Run.ofExcept (frame.upvalue i); return (← Run.heap).cell cell)
      (do let cell ← Plain.ofExcept (frame.bare.upvalue i); return (← Plain.heap).cell cell)
      (fun v u => u = v) fun v m' => m'.Fair → act.Fits m' (.upvalue i) v := by
  have hbare : frame.bare.upvalue i = frame.upvalue i := rfl
  rw [hbare]
  refine (Refines.ofExcept (Q := fun cell _ => frame.upvalue i = .ok cell) hat.sound
    (fun e he => isViolation_of_isCodeFault (isCodeFault_upvalue he)) fun cell hcell => hcell).bind
      fun cell m₁ hev hcell => ?_
  have hat₁ := hat.mono hev
  refine Refines.readHeap (f := fun heap => heap.cell cell) hat₁.sound
    (fun plain halike => halike.cell cell) fun hfair view hview type htype => ?_
  have hcells : act.cells[i]? = some cell := by
    rw [← hat.isFrame.upvalues_eq]
    unfold Frame.upvalue at hcell
    split at hcell
    · next heq =>
      cases hcell
      exact heq
    · cases hcell
  cases htype with
  | any => exact Ty.admits_unknown _ _ _
  | upvalue => exact hview.upvalues hat₁.evolves.grows hat₁.sound hfair hview.grows i cell hcells

theorem Machine.Alike.realm {w : World} (h : m.Alike w) (id : EngineId) :
    w.realm id = (m.engine id).realm := by
  unfold World.realm State.engine
  rw [h.realms, Machine.realms, Array.getD_eq_getD_getElem?, Array.getD_eq_getD_getElem?,
    Array.getElem?_map]
  cases m.engines[id]? <;> rfl

theorem refines_global (hat : act.At m frame D) (name : String) :
    Refines pre m (do return ((← get).engine frame.engine).global name)
      (do return ((← get).realm frame.bare.engine).global name) (fun v u => u = v)
      fun v m' => m'.Fair → act.Fits m' (.global name) v := by
  refine Ends.step (.refl hat.sound) (.refl m) rfl (fun _ view _ type htype => ?_)
    fun _ w halike => ⟨_, w, rfl, ?_, halike⟩
  · cases htype
    exact Ty.admits_unknown _ _ _
  · rw [halike.realm]
    rfl

end Variables

/-! ## New objects -/

theorem length_mapM_capture (frame : Frame) {captures : List Capture} {cells : List CellId}
    (h : captures.mapM frame.capture = .ok cells) : cells.length = captures.length := by
  have hlength := congrArg List.length (map_eq_of_mapM_eq_ok h)
  rw [List.length_map, List.length_map] at hlength
  exact hlength.symm

/-- A new function leaves the machine as it should be. -/
theorem Machine.Evolves.addFunction {m : Machine} (h : m.Sound) (name : String)
    (f : FunctionObject) (hf : ∀ c, f = .closure c →
      ∃ proto, m.program.prototype? c.proto = some proto ∧
        c.cells.length = proto.upvalues.size) :
    m.Evolves (m.addFunction name f).2 := by
  refine .setHeap h (.addFunction _ name f) (Heap.laid_of_tables h.laid rfl) ?_
  intro hbound ref c hc
  rcases Heap.closureOf?_addFunction name hc with hold | hnew
  · exact hbound ref c hold
  · exact hf c hnew

section Objects

variable {act : Activation} {m : Machine} {frame : Frame} {D : Slots} {pre : Prop}

/-- A function literal makes a closure of its prototype. -/
theorem refines_function (hat : act.At m frame D) {ref : PrototypeRef} {captures : List Capture}
    {proto : Prototype} (hproto : act.entry.program.prototype? ref = some proto)
    (hlength : captures.length = proto.upvalues.size) (caller : Caller) (plain : Plain.Caller) :
    Refines pre m (eval caller frame (.function ref captures))
      (Plain.expr plain frame.bare (.function ref captures)) (fun v u => u = v)
      fun v m' => m'.Fair → act.Fits m' (.function ref captures) v := by
  rw [eval, Plain.expr, Frame.capture_bare]
  have hviolation (e : RuntimeError) (he : captures.mapM frame.capture = .error e) :
      e.isViolation = false := by
    obtain ⟨c, -, hc⟩ := exists_of_mapM_eq_error he
    exact isViolation_capture hc
  refine (Refines.ofExcept (Q := fun cells _ => cells.length = captures.length) hat.sound
    hviolation fun _ => length_mapM_capture frame).bind fun cells m₁ hev hcells => ?_
  have hat₁ := hat.mono hev
  have hproto₁ : m₁.program.prototype? ref = some proto :=
    hat₁.evolves.grows.program.prototype? hproto
  have hev₁ : m₁.Evolves (m₁.instantiateWith frame.engine ref cells).2 := by
    refine .addFunction hat₁.sound ref.name _ fun c hc => ?_
    cases hc
    exact ⟨proto, hproto₁, hcells.trans hlength⟩
  refine Ends.step hev₁ (.of_same rfl rfl) rfl (fun _ view hview type htype => ?_)
    fun _ w halike => ?_
  · cases htype with
    | any => exact Ty.admits_unknown _ _ _
    | function =>
      refine Ty.admits_function.2 ⟨_, ⟨ref, cells, frame.engine⟩, rfl, ?_, rfl⟩
      exact hview.grows.heap.closureOf?
        (Heap.closureOf?_eq_some.2 (Heap.function?_addFunction m₁.heap ref.name _))
  · obtain ⟨href, hheap⟩ :=
      halike.heap.addFunction ref.name (.closure ⟨ref, cells, frame.engine⟩)
    exact ⟨_, _, rfl, congrArg Value.function href, halike.program, hheap, halike.realms⟩

/-- A new table. -/
theorem refines_newTable {m : Machine} (h : m.Sound) {t u : Table} (ht : t.Laid m.shapes)
    (hsame : t.Same u) : Refines pre m (Run.newTable t) (Plain.newTable u) (fun v u => u = v)
      fun v m' => ∃ ref, v = .table ref ∧ m'.heap.table ref = t := by
  have hev : m.Evolves (m.setHeap (m.heap.addTable t).2) :=
    .setHeap_of_functions h (.addTable _ t) (Heap.laid_addTable h.laid ht) rfl
  refine Refines.heap h fun plain halike => ?_
  obtain ⟨href, hheap⟩ := halike.addTable hsame
  refine (Refines.setHeap hev hheap).bind fun _ m' hev' hm' => ?_
  subst hm'
  exact Refines.pure hev.sound (congrArg Value.table href) ⟨_, rfl, Heap.table_addTable _ t⟩

end Objects

/-! ## The induction -/

theorem refines_literal {act : Activation} {m : Machine} {frame : Frame} {D : Slots}
    (hat : act.At m frame D) (plain : Plain.Caller) (l : Literal) :
    Refines True m (pure l.value) (Plain.expr plain frame.bare (.literal l)) (fun v u => u = v)
      fun v m' => m'.Fair → act.Fits m' (.literal l) v := by
  rw [Plain.expr]
  refine Refines.pure hat.sound rfl fun _ view _ type htype => ?_
  cases htype with
  | any => exact Ty.admits_unknown _ _ _
  | literal => exact Ty.admits_literal l

theorem EmitsAll.hasTypes {σ : Setting} (hf : σ.shapes.Forest) {es : List Expr}
    {cs : List Emitted} (h : EmitsAll σ es cs) :
    HasTypes σ.knowledge σ.typing es (cs.map Emitted.type) := by
  cases h with
  | nil => exact .nil
  | cons h hs => exact .cons (h.hasType hf) (EmitsAll.hasTypes hf hs)

theorem Machine.AdmitsAll.nil (m : Machine) : m.AdmitsAll [] [] :=
  ⟨rfl, fun _ _ _ htype => by cases htype⟩

theorem Machine.AdmitsAll.cons {m : Machine} {type : Ty} {types : List Ty} {v : Value}
    {vs : List Value} (h : m.Admits type v) (hs : m.AdmitsAll types vs) :
    m.AdmitsAll (type :: types) (v :: vs) := by
  refine ⟨congrArg (· + 1) hs.length, fun i => ?_⟩
  cases i with
  | zero =>
    rintro _ _ ⟨⟩ ⟨⟩
    exact h
  | succ i => exact hs.admits i

/-- Results of a call are as the return types say of whatever prototype the callee is known to
have. -/
def Activation.CallFits (act : Activation) (m : Machine) (truncate : Bool) (callee : Expr)
    (vs : List Value) : Prop :=
  ∀ ⦃view : View⦄, act.Sees m view → ∀ ⦃ref : PrototypeRef⦄ ⦃types : List Ty⦄,
    HasType view.machine.knowledge view.typing callee (.function ref) →
    view.machine.knowledge.returns.lookup ref.id = some types →
    ∀ i, (truncate = true → i = 0) → view.machine.FitsAt True types vs i

/-- A call whose callee and arguments do what they do in plain execution does so, too. -/
theorem refines_evalCall {act : Activation} (hact : act.Ok) {caller : Caller}
    {plain : Plain.Caller} (hcalls : CallsOk caller plain) {m : Machine} {frame : Frame}
    {D : Slots} (hat : act.At m frame D) {callee : Expr} {args : List Expr} {c : Emitted}
    {cs : List Emitted} {id : SiteId} {truncate : Bool} (hcs : EmitsAll act.setting args cs)
    (hsite : act.entry.sites.Has id (cs.map Emitted.type) truncate)
    (hcallee : Refines True m (c.run caller frame) (Plain.expr plain frame.bare callee)
      (fun v u => u = v) fun v m' => m'.Fair → act.Fits m' callee v)
    (hargs : ∀ m₁, m.Evolves m₁ → Refines True m₁ (evalAll caller frame (cs.map Emitted.boxed))
      (Plain.exprs plain frame.bare args) (fun vs us => us = vs)
      fun vs m' => m'.Fair → act.AllFit m' args vs) :
    Refines True m (evalCall caller frame (.mk id c.boxed (cs.map Emitted.boxed)))
      (do
        let f ← Plain.expr plain frame.bare callee
        let vs ← Plain.exprs plain frame.bare args
        plain frame.bare.engine f vs)
      (fun vs us => vs = cut truncate us)
      fun vs m' => m'.Fair → act.CallFits m' truncate callee vs := by
  rw [evalCall, Emitted.eval_boxed]
  refine hcallee.bind fun f m₁ hev₁ hf => ?_
  refine (hargs m₁ hev₁).bind fun vs m₂ hev₂ hvs => ?_
  have hat₁ := hat.mono hev₁
  have hat₂ := hat₁.mono hev₂
  have htypes : HasTypes act.entry.knowledge act.typing args (cs.map Emitted.type) :=
    EmitsAll.hasTypes (σ := act.setting) hact.sound.forest hcs
  have hstatic (hfair : m₂.Fair) : m₂.AdmitsAll (cs.map Emitted.type) vs :=
    hvs hfair (hat₂.own hact)
      (htypes.mono hat₂.evolves.grows.knowledge hact.sound.forest hat₂.sound.forest)
  refine (hcalls hat₂.sound frame.engine (hat₂.evolves.grows.sites hsite) f vs).mono
    (fun _ => hstatic) (fun _ _ h => h) fun results m₃ hev₃ hresults hfair => ?_
  intro view hview ref types htype hreturns
  have hfair₁ := hfair.of_evolves (hev₂.trans hev₃)
  have hcallee := hf hfair₁ (hview.earlier (hev₂.trans hev₃).grows) htype
  exact hresults hfair hview.grows hview.sound hcallee hreturns

/-- An entry with a constant text key is written by key. -/
theorem evalInits_namedInit {caller : Caller} {frame : Frame} {l : Layout} {name : String}
    {v : Emitted} {inits : List Init} {next : Int64} {t : Table} (ht : t.Regular)
    (hlayout : t.layout = l) :
    evalInits caller frame (Emit.namedInit l name v :: inits) next t = (do
      let x ← v.run caller frame
      evalInits caller frame inits next (t.set (.str name) x)) := by
  unfold Emit.namedInit
  cases hslot : l.slotOf? name with
  | none => rw [evalInits, Emitted.eval_boxed]
  | some slot =>
    rw [evalInits, Emitted.eval_boxed]
    refine bind_congr fun x => ?_
    rw [Table.storeSlot_eq_set ht (by rw [hlayout]; exact hslot)]
    rfl

section Induction

variable {act : Activation} {caller : Caller} {plain : Plain.Caller}

mutual

/-- **Expressions**: code of an expression does what the expression does, and gives a value of
its types. -/
theorem Emits.refines (hact : act.Ok) (hcalls : CallsOk caller plain) :
    ∀ {e : Expr} {c : Emitted}, Emits act.setting e c →
    ∀ {m : Machine} {frame : Frame} {D : Slots}, act.At m frame D →
    (act.entry.Fair → e.readsOnly D = true) →
    Refines True m (c.run caller frame) (Plain.expr plain frame.bare e) (fun v u => u = v)
      fun v m' => m'.Fair → act.Fits m' e v
  | _, _, .nil, m, frame, D, hat, _ => by
    rw [Emitted.run_value, eval]
    exact refines_literal hat plain .nil
  | _, _, .bool b, m, frame, D, hat, _ => by
    rw [Emitted.run_bool, eval, pure_bind]
    exact refines_literal hat plain (.bool b)
  | _, _, .int n, m, frame, D, hat, _ => by
    rw [Emitted.run_int, eval, pure_bind]
    exact refines_literal hat plain (.int n)
  | _, _, .float x, m, frame, D, hat, _ => by
    rw [Emitted.run_float, eval, pure_bind]
    exact refines_literal hat plain (.float x)
  | _, _, @Emits.str _ s i hconstant, m, frame, D, hat, _ => by
    have hvalue : frame.constant i = .str s := by
      unfold Frame.constant
      rw [hat.isFrame.constants_eq, Array.getD_eq_getD_getElem?]
      exact congrArg (Option.getD · Value.nil) hconstant
    rw [Emitted.run_value, eval, hvalue]
    exact refines_literal hat plain (.str s)
  | _, _, @Emits.slot _ i hslot, m, frame, D, hat, hreads => by
    rw [Emitted.run_narrow, eval, Plain.expr]
    exact (refines_readLocal hact hat hslot hreads).narrowed fun v m₁ hev hv hfair =>
      (hv hfair).own hact (hat.evolves.trans hev) (.slot i)
  | _, _, @Emits.upvalue _ i _, m, frame, D, hat, _ => by
    rw [Emitted.run_narrow, eval, Plain.expr]
    exact (refines_upvalue hat i).narrowed fun v m₁ hev hv hfair =>
      (hv hfair).own hact (hat.evolves.trans hev) (.upvalue i)
  | _, _, .global name, m, frame, D, hat, _ => by
    rw [Emitted.run_value, eval, Plain.expr]
    exact refines_global hat name
  | _, _, @Emits.binary _ op left right _ _ hl hr, m, frame, D, hat, hreads => by
    rw [Emitted.run_binary op hl.fits hr.fits, Plain.expr]
    simp only [Expr.readsOnly, Bool.and_eq_true] at hreads
    refine (Emits.refines hact hcalls hl hat fun hfair => (hreads hfair).1).bind
      fun a m₁ hev₁ ha => ?_
    refine (Emits.refines hact hcalls hr (hat.mono hev₁) fun hfair => (hreads hfair).2).bind
      fun b m₂ hev₂ hb => ?_
    refine Refines.ofExcept hev₂.sound
      (fun e he => isViolation_of_isCodeFault (isCodeFault_binary he))
      fun v hv hfair view hview type htype => ?_
    have ha₂ := (ha (hfair.of_evolves hev₂)).mono hev₂
    cases htype with
    | any => exact Ty.admits_unknown _ _ _
    | binary htl htr => exact Ty.admits_binary (ha₂ hview htl) (hb hfair hview htr) hv
  | _, _, @Emits.logical _ op left right l r hl hr, m, frame, D, hat, hreads => by
    rw [Emitted.run_logical op hl.fits hr.fits, Plain.expr]
    simp only [Expr.readsOnly, Bool.and_eq_true] at hreads
    refine (Emits.refines hact hcalls hl hat fun hfair => (hreads hfair).1).bind
      fun a m₁ hev₁ ha => ?_
    have hat₁ := hat.mono hev₁
    -- the result is the left operand, or the right one
    have hleft : Refines True m₁ (pure a) (pure a : Plain Value) (fun v u => u = v)
        fun v m' => m'.Fair → act.Fits m' (.logical op left right) v := by
      refine Refines.pure hat₁.sound rfl fun hfair view hview type htype => ?_
      cases htype with
      | any => exact Ty.admits_unknown _ _ _
      | logical htl _ => exact Ty.admits_join_left (ha hfair hview htl)
    have hright : Refines True m₁ (r.run caller frame) (Plain.expr plain frame.bare right)
        (fun v u => u = v) fun v m' => m'.Fair → act.Fits m' (.logical op left right) v := by
      refine (Emits.refines hact hcalls hr hat₁ fun hfair => (hreads hfair).2).mono
        (fun _ _ => trivial) (fun _ _ h => h) fun v m' _ hv hfair view hview type htype => ?_
      cases htype with
      | any => exact Ty.admits_unknown _ _ _
      | logical _ htr => exact Ty.admits_join_right (hv hfair hview htr)
    cases op <;> cases htruthy : a.isTruthy <;> simp only [shortCircuit, htruthy] <;>
      first | exact hleft | exact hright
  | _, _, @Emits.unary _ op operand _ hc, m, frame, D, hat, hreads => by
    rw [Emitted.run_unary op hc.fits, Plain.expr]
    refine (Emits.refines hact hcalls hc hat hreads).bind fun a m₁ hev₁ ha => ?_
    have hat₁ := hat.mono hev₁
    refine Refines.tryHeap (f := fun heap => AdaptiveScript.unary heap.border op a)
      (g := fun heap => AdaptiveScript.unary heap.border op a) hat₁.sound
      (fun heap halike => by rw [halike.border hat₁.sound.laid])
      (fun e he => isViolation_of_isCodeFault (isCodeFault_unary he))
      fun v hv hfair view hview type htype => ?_
    cases htype with
    | any => exact Ty.admits_unknown _ _ _
    | unary htype => exact Ty.admits_unary (ha hfair hview htype) hv
  | _, _, @Emits.field _ target key _ f l ht hkey hl hf, m, frame, D, hat, hreads => by
    cases Expr.eq_of_constantKey? hkey
    rw [Emitted.run_value, eval, Emitted.eval_boxed, Plain.expr]
    simp only [Expr.readsOnly, Bool.and_eq_true] at hreads
    refine (Emits.refines hact hcalls ht hat fun hfair => (hreads hfair).1).bind
      fun t m₁ hev₁ _ => ?_
    have hat₁ := hat.mono hev₁
    have hl₁ := hl.mono hat₁.evolves.grows.shapes hact.sound.forest hat₁.sound.forest
    rw [Plain.expr, pure_bind]
    refine Refines.tryHeap (f := fun heap => loadField heap f t)
      (g := fun heap => indexValue heap t (.str f.key)) hat₁.sound (fun heap halike => ?_)
      (fun e he => ?_) fun v _ _ view _ type htype => ?_
    · rw [loadField_eq hat₁.sound.laid hl₁ hf]
      exact halike.indexValue t (.str f.key)
    · rw [loadField_eq hat₁.sound.laid hl₁ hf] at he
      exact isViolation_of_isCodeFault (isCodeFault_indexValue he)
    · cases htype
      exact Ty.admits_unknown _ _ _
  | _, _, .index ht hk, m, frame, D, hat, hreads => by
    rw [Emitted.run_value, eval, Emitted.eval_boxed, Plain.expr]
    simp only [Expr.readsOnly, Bool.and_eq_true] at hreads
    refine (Emits.refines hact hcalls ht hat fun hfair => (hreads hfair).1).bind
      fun t m₁ hev₁ _ => ?_
    rw [Emitted.eval_boxed]
    refine (Emits.refines hact hcalls hk (hat.mono hev₁) fun hfair => (hreads hfair).2).bind
      fun k m₂ hev₂ _ => ?_
    refine Refines.tryHeap (f := fun heap => indexValue heap t k)
      (g := fun heap => indexValue heap t k) hev₂.sound
      (fun heap halike => halike.indexValue t k)
      (fun e he => isViolation_of_isCodeFault (isCodeFault_indexValue he))
      fun v _ _ view _ type htype => ?_
    cases htype
    exact Ty.admits_unknown _ _ _
  | _, _, @Emits.call _ callee args c cs id type hc hcs hsite htype _, m, frame, D, hat,
    hreads => by
    rw [Emitted.run_narrow, eval, Plain.expr]
    simp only [Expr.readsOnly, Bool.and_eq_true] at hreads
    have hcall := refines_evalCall hact hcalls hat hcs hsite
      (Emits.refines hact hcalls hc hat fun hfair => (hreads hfair).1)
      fun m₁ hev₁ => EmitsAll.refines hact hcalls hcs (hat.mono hev₁) fun hfair => (hreads hfair).2
    have hfirst : Refines True m
        (evalCall caller frame (.mk id c.boxed (cs.map Emitted.boxed)) >>= fun vs =>
          pure (vs.headD .nil))
        ((do
          let f ← Plain.expr plain frame.bare callee
          let vs ← Plain.exprs plain frame.bare args
          plain frame.bare.engine f vs) >>= fun us => pure (us.headD .nil))
        (fun v u => u = v) fun v m' => m'.Fair → act.Fits m' (.call callee args) v := by
      refine hcall.map (fun vs us h => ?_) fun vs m' _ hvs hfair view hview type htype => ?_
      · rw [h, headD_cut]
      · cases htype with
        | any => exact Ty.admits_unknown _ _ _
        | call hcallee hreturns => exact (hvs hfair hview hcallee hreturns 0 fun _ => rfl).head
    simp only [bind_assoc] at hfirst
    exact hfirst.narrowed fun v m₁ hev hv hfair =>
      (hv hfair).own hact (hat.evolves.trans hev) htype
  | _, _, .function hproto hlength _, m, frame, D, hat, _ => by
    rw [Emitted.run_value]
    exact refines_function hat hproto hlength caller plain
  | _, _, @Emits.table _ shape entries l _ hl hresolve his, m, frame, D, hat, hreads => by
    rw [Emitted.run_value, eval, Plain.expr]
    have hl₁ := hl.mono hat.evolves.grows.shapes hact.sound.forest hat.sound.forest
    refine (EmitsInits.refines hact hcalls his hat hreads 1 (.ofLayout hl₁) rfl (.ofLayout l)).mono
      (fun _ _ => trivial) (fun _ _ h => h) fun v m' hev hv _ view hview type htype => ?_
    obtain ⟨ref, rfl, hlayout⟩ := hv
    cases htype with
    | any => exact Ty.admits_unknown _ _ _
    | table hnamed _ =>
      refine Ty.admits_tableOf.2 ⟨ref, rfl, ?_⟩
      -- the shape was frozen before, so its name is final
      have hgrows := (hat.evolves.trans hev).grows.shapes.trans hview.grows.shapes
      have hl' := hl.mono hgrows hact.sound.forest hview.sound.forest
      have hentry : act.entry.shapes.resolve shape = act.entry.shapes.resolve l.shape :=
        hresolve.trans (hact.sound.forest.resolve_of_frozen hl.frozen).symm
      have hfinal : view.machine.shapes.resolve shape = l.shape :=
        (hgrows.resolve_congr hact.sound.forest hview.sound.forest hentry).trans
          (hview.sound.forest.resolve_of_frozen hl'.frozen)
      have hmade : ref < m'.heap.tables.size := Heap.lt_of_shape (by
        rw [hlayout]
        exact Nat.ne_of_gt hl.has.1)
      rw [hview.grows.heap.layout hmade, hlayout]
      exact (hnamed.trans hfinal).symm

/-- Code of some expressions. -/
theorem EmitsAll.refines (hact : act.Ok) (hcalls : CallsOk caller plain) :
    ∀ {es : List Expr} {cs : List Emitted}, EmitsAll act.setting es cs →
    ∀ {m : Machine} {frame : Frame} {D : Slots}, act.At m frame D →
    (act.entry.Fair → Expr.allReadOnly D es = true) →
    Refines True m (evalAll caller frame (cs.map Emitted.boxed))
      (Plain.exprs plain frame.bare es) (fun vs us => us = vs)
      fun vs m' => m'.Fair → act.AllFit m' es vs
  | _, _, .nil, m, frame, D, hat, _ => by
    rw [List.map_nil, evalAll, Plain.exprs]
    refine Refines.pure hat.sound rfl fun _ view _ types htypes => ?_
    cases htypes
    exact .nil _
  | _, _, @EmitsAll.cons _ e es _ _ h hs, m, frame, D, hat, hreads => by
    rw [List.map_cons, evalAll, Emitted.eval_boxed, Plain.exprs]
    simp only [Expr.allReadOnly, Bool.and_eq_true] at hreads
    refine (Emits.refines hact hcalls h hat fun hfair => (hreads hfair).1).bind
      fun v m₁ hev₁ hv => ?_
    have hat₁ := hat.mono hev₁
    refine (EmitsAll.refines hact hcalls hs hat₁ fun hfair => (hreads hfair).2).bind
      fun vs m₂ hev₂ hvs => ?_
    refine Refines.pure hev₂.sound rfl fun hfair view hview types htypes => ?_
    have hv₂ := (hv (hfair.of_evolves hev₂)).mono hev₂
    cases htypes with
    | cons htype htypes => exact .cons (hv₂ hview htype) (hvs hfair hview htypes)

/-- Code of the entries of a table constructor, up to the new table. -/
theorem EmitsInits.refines (hact : act.Ok) (hcalls : CallsOk caller plain) :
    ∀ {l : Layout} {entries : List Entry} {inits : List Init},
    EmitsInits act.setting l entries inits →
    ∀ {m : Machine} {frame : Frame} {D : Slots}, act.At m frame D →
    (act.entry.Fair → Expr.entriesReadOnly D entries = true) →
    ∀ (next : Int64) {t u : Table}, t.Laid m.shapes → t.layout = l → t.Same u →
    Refines True m (do Run.newTable (← evalInits caller frame inits next t))
      (do Plain.newTable (← Plain.fill plain frame.bare entries next u)) (fun v u => u = v)
      fun v m' => ∃ ref, v = .table ref ∧ (m'.heap.table ref).layout = l
  | _, _, _, .nil, m, frame, D, hat, _, next, t, u, ht, hlayout, hsame => by
    rw [evalInits, Plain.fill, pure_bind, pure_bind]
    refine (refines_newTable hat.sound ht hsame).mono (fun _ _ => trivial) (fun _ _ h => h)
      fun v m' _ hv => ?_
    obtain ⟨ref, rfl, htable⟩ := hv
    exact ⟨ref, rfl, by rw [htable, hlayout]⟩
  | _, _, _, @EmitsInits.named _ _ name _ _ _ _ hv his, m, frame, D, hat, hreads, next, t, u, ht,
    hlayout, hsame => by
    rw [evalInits_namedInit ht.regular hlayout, Plain.fill, bind_assoc, bind_assoc]
    simp only [Expr.entriesReadOnly, Bool.and_eq_true] at hreads
    refine (Emits.refines hact hcalls hv hat fun hfair => (hreads hfair).1).bind
      fun v m₁ hev₁ _ => ?_
    have ht₁ := ht.mono hev₁.grows.shapes hat.sound.forest hev₁.sound.forest
    exact EmitsInits.refines hact hcalls his (hat.mono hev₁) (fun hfair => (hreads hfair).2) next
      (ht₁.set _ v) ((Table.layout_set ..).trans hlayout) (hsame.set ht.regular _ v)
  | _, _, _, .constant hkey hv his, m, frame, D, hat, hreads, next, t, u, ht, hlayout, hsame => by
    cases Expr.eq_of_constantKey? hkey
    rw [evalInits_namedInit ht.regular hlayout, Plain.fill, bind_assoc, bind_assoc, Plain.expr,
      pure_bind, bind_assoc]
    simp only [Expr.entriesReadOnly, Bool.and_eq_true] at hreads
    refine (Emits.refines hact hcalls hv hat fun hfair => (hreads hfair).1.2).bind
      fun v m₁ hev₁ _ => ?_
    have ht₁ := ht.mono hev₁.grows.shapes hat.sound.forest hev₁.sound.forest
    exact EmitsInits.refines hact hcalls his (hat.mono hev₁) (fun hfair => (hreads hfair).2) next
      (ht₁.set _ v) ((Table.layout_set ..).trans hlayout) (hsame.set ht.regular _ v)
  | _, _, _, .keyed hk hv his, m, frame, D, hat, hreads, next, t, u, ht, hlayout, hsame => by
    rw [evalInits, Plain.fill, Emitted.eval_boxed, bind_assoc, bind_assoc]
    simp only [Expr.entriesReadOnly, Bool.and_eq_true] at hreads
    refine (Emits.refines hact hcalls hk hat fun hfair => (hreads hfair).1.1).bind
      fun k m₁ hev₁ _ => ?_
    rw [Emitted.eval_boxed, bind_assoc, bind_assoc]
    refine (Emits.refines hact hcalls hv (hat.mono hev₁) fun hfair => (hreads hfair).1.2).bind
      fun v m₂ hev₂ _ => ?_
    rw [bind_assoc, bind_assoc]
    refine (Refines.ofExcept (Q := fun _ _ => True) hev₂.sound
      (fun e he => isViolation_of_isCodeFault (isCodeFault_key he)) fun _ _ => trivial).bind
      fun key m₃ hev₃ _ => ?_
    have hev := (hev₁.trans hev₂).trans hev₃
    have ht₃ := ht.mono hev.grows.shapes hat.sound.forest hev.sound.forest
    exact EmitsInits.refines hact hcalls his (hat.mono hev) (fun hfair => (hreads hfair).2) next
      (ht₃.set _ v) ((Table.layout_set ..).trans hlayout) (hsame.set ht.regular _ v)
  | _, _, _, .positional hv his, m, frame, D, hat, hreads, next, t, u, ht, hlayout, hsame => by
    rw [evalInits, Plain.fill, Emitted.eval_boxed, bind_assoc, bind_assoc]
    simp only [Expr.entriesReadOnly, Bool.and_eq_true] at hreads
    refine (Emits.refines hact hcalls hv hat fun hfair => (hreads hfair).1).bind
      fun v m₁ hev₁ _ => ?_
    have ht₁ := ht.mono hev₁.grows.shapes hat.sound.forest hev₁.sound.forest
    exact EmitsInits.refines hact hcalls his (hat.mono hev₁) (fun hfair => (hreads hfair).2)
      (next + 1) (ht₁.set _ v) ((Table.layout_set ..).trans hlayout) (hsame.set ht.regular _ v)

end
end Induction
end AdaptiveScript
