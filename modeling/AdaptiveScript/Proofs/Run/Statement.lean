import AdaptiveScript.Proofs.Run.Expression

/-!
# Statements

Code of a statement does what the statement does in plain execution
(`EmitsStmt.runs`, `EmitsBlock.runs`).  A statement leaves in one of three ways, and
each has its own invariant (`Activation.Leaves`).  If the next statement runs, the locals
that the statement assigns hold values of their types.  If a loop is left, those that were
assigned before still do.  If the function returns, the results are as the return types say;
only a type nil after the first place means nothing when a call passes its results on.

A loop keeps the locals that were assigned before it, and this is the invariant of its
rounds.  What a body does is a parameter of the lemmas about loops, so each loop is one
induction on the number of rounds.
-/

namespace AdaptiveScript

/-! ## New values of locals -/

/-- One local of a frame gets a new value.  It is kept where it was kept before, in the frame
or in a cell. -/
structure Frame.Sets (frame : Frame) (slot : Nat) (v : Value) (frame' : Frame) : Prop where
  engine : frame'.engine = frame.engine
  upvalues : frame'.upvalues = frame.upvalues
  constants : frame'.constants = frame.constants
  types : frame'.types = frame.types
  size : frame'.locals.size = frame.locals.size
  others : ∀ other : Nat, other ≠ slot → frame'.locals[other]? = frame.locals[other]?
  plain : ∀ old, frame.locals[slot]? = some (.plain old) →
    frame'.locals[slot]? = some (.plain v)
  shared : ∀ cell', frame'.locals[slot]? = some (.shared cell') →
    ∃ cell, frame.locals[slot]? = some (.shared cell)

namespace Frame

/-- A local that is kept in the frame gets a new value there. -/
theorem sets_setIfInBounds {frame : Frame} {slot : Nat} {old new : Variable} {v : Value}
    (hold : frame.locals[slot]? = some old) (hplain : ∀ u, old = .plain u → new = .plain v)
    (hshared : ∀ cell', new = .shared cell' → ∃ cell, old = .shared cell) :
    frame.Sets slot v { frame with locals := frame.locals.setIfInBounds slot new } := by
  have hlt : slot < frame.locals.size := (Array.getElem?_eq_some_iff.1 hold).1
  have hnew : (frame.locals.setIfInBounds slot new)[slot]? = some new := by simp [hlt]
  refine ⟨rfl, rfl, rfl, rfl, by simp, fun other hne => by simp [Ne.symm hne], ?_, ?_⟩
  · intro u hu
    rw [hold] at hu
    rw [hnew, hplain u (Option.some.inj hu)]
  · intro cell' hcell'
    rw [hnew] at hcell'
    obtain ⟨cell, rfl⟩ := hshared cell' (Option.some.inj hcell')
    exact ⟨cell, hold⟩

/-- Nothing changes in the frame if the local is not kept there. -/
theorem sets_self {frame : Frame} {slot : Nat} {v : Value}
    (h : ∀ old, frame.locals[slot]? ≠ some (.plain old)) : frame.Sets slot v frame :=
  ⟨rfl, rfl, rfl, rfl, rfl, fun _ _ => rfl, fun old hold => absurd hold (h old),
    fun cell hcell => ⟨cell, hcell⟩⟩

theorem sets_declare (frame : Frame) (heap : Heap) (slot : Nat) (v : Value) :
    frame.Sets slot v (frame.declare heap slot v).1 := by
  unfold declare
  split
  · next hold => exact sets_setIfInBounds hold (fun _ _ => rfl) fun _ h => (by cases h)
  · next cell hold =>
    exact sets_setIfInBounds hold (fun _ h => by cases h) fun _ _ => ⟨cell, rfl⟩
  · next hnone => exact sets_self fun old => (by rw [hnone]; exact nofun)

theorem sets_write (frame : Frame) (heap : Heap) (slot : Nat) (v : Value) :
    frame.Sets slot v (frame.write heap slot v).1 := by
  unfold write
  split
  · next hold => exact sets_setIfInBounds hold (fun _ _ => rfl) fun _ h => (by cases h)
  · next hold => exact sets_self fun old => (by rw [hold]; exact nofun)
  · next hnone => exact sets_self fun old => (by rw [hnone]; exact nofun)

end Frame

namespace Activation

variable {act : Activation} {m m' : Machine} {frame frame' : Frame} {slot : Nat}
  {v : Value} {D : Slots}

theorem IsFrame.of_sets (h : act.IsFrame frame) (hsets : frame.Sets slot v frame') :
    act.IsFrame frame' where
  engine_eq := hsets.engine.trans h.engine_eq
  upvalues_eq := hsets.upvalues.trans h.upvalues_eq
  constants_eq := hsets.constants.trans h.constants_eq
  types_eq := hsets.types.trans h.types_eq
  size_eq := hsets.size.trans h.size_eq
  shared other cell hcell := by
    by_cases heq : other = slot
    · subst heq
      obtain ⟨cell', hcell'⟩ := hsets.shared cell hcell
      exact h.shared other cell' hcell'
    · rw [hsets.others other heq] at hcell
      exact h.shared other cell hcell

/-- A local that gets a value of its type is assigned from then on. -/
theorem Typed.of_sets (hframe : act.IsFrame frame) (hsets : frame.Sets slot v frame')
    (h : act.Typed m frame D)
    (hv : ∀ ⦃view : View⦄, act.Sees m view → view.machine.Admits (view.typing.slot slot) v) :
    act.Typed m frame' (D.insert slot) := by
  intro view hview other hother hlt
  by_cases hunknown : view.typing.slot other = .unknown
  · rw [hunknown]
    exact Ty.admits_unknown _ _ _
  obtain ⟨old, hold⟩ := hframe.plain_of_ne hview.respects hlt hunknown
  by_cases heq : other = slot
  · subst heq
    have hread : frame'.read m.heap other = v := by
      unfold Frame.read
      rw [hsets.plain old hold]
    rw [hread]
    exact hv hview
  · have hread : frame'.read m.heap other = frame.read m.heap other := by
      unfold Frame.read
      rw [hsets.others other heq, hold]
    have hD : D other = true := by simpa [Slots.insert, heq] using hother
    rw [hread]
    exact h hview other hD hlt

/-- A value of a type that a local takes is a value of the type of the local. -/
theorem admits_of_takes {view : View} (hview : act.Sees m view) {type : Ty}
    (htakes : view.typing.Takes view.machine.shapes slot type)
    (hv : view.machine.Admits type v) : view.machine.Admits (view.typing.slot slot) v := by
  rcases htakes with hunknown | hsame
  · rw [hunknown]
    exact Ty.admits_unknown _ _ _
  · exact (Ty.admits_congr hview.sound.forest hsame).trans hv

end Activation

/-! ## Steps -/

section Steps

variable {act : Activation} {m : Machine} {frame : Frame} {D : Slots} {pre : Prop}

/-- A new value for a local of the frame. -/
theorem refines_update (hat : act.At m frame D) {f g : Heap → Frame × Heap} {slot : Nat}
    {v : Value} (hsets : frame.Sets slot v (f m.heap).1)
    (hcells : Frame.CellsOnly m.heap (f m.heap).2)
    (hplain : ∀ plain : Heap, m.heap.Alike plain →
      (g plain).1 = (f m.heap).1.bare ∧ (f m.heap).2.Alike (g plain).2)
    (hv : m.Fair → ∀ ⦃view : View⦄, act.Sees m view →
      view.machine.Admits (view.typing.slot slot) v) :
    Refines pre m (do let (frame, heap) := f (← Run.heap); Run.setHeap heap; return frame)
      (do let (frame, heap) := g (← Plain.heap); Plain.setHeap heap; return frame)
      (fun a b => b = a.bare) fun frame' m' => act.At m' frame' (D.insert slot) := by
  have hev : m.Evolves (m.setHeap (f m.heap).2) := .setCells hat.sound hcells
  have hframe' := hat.isFrame.of_sets hsets
  refine Refines.heap hat.sound fun plain halike => ?_
  obtain ⟨hbare, hheap⟩ := hplain plain halike
  refine (Refines.setHeap hev hheap).bind fun _ m' hev' hm' => ?_
  subst hm'
  refine Refines.pure hev.sound hbare ⟨hframe', hat.evolves.trans hev, fun hfair => ?_⟩
  have hfair₀ := hfair.of_evolves hev
  have htyped := (hat.typed hfair₀).of_sets hat.isFrame hsets (hv hfair₀)
  exact htyped.mono hev.grows hframe'

theorem refines_declareLocal (hat : act.At m frame D) {slot : Nat} {v : Value}
    (hv : m.Fair → ∀ ⦃view : View⦄, act.Sees m view →
      view.machine.Admits (view.typing.slot slot) v) :
    Refines pre m (declareLocal slot v frame) (Plain.declare slot v frame.bare)
      (fun a b => b = a.bare) fun frame' m' => act.At m' frame' (D.insert slot) :=
  refines_update hat (f := fun heap => frame.declare heap slot v)
    (g := fun heap => frame.bare.declare heap slot v) (frame.sets_declare m.heap slot v)
    (frame.cellsOnly_declare m.heap slot v)
    (fun _ halike => frame.declare_bare halike slot v) hv

theorem refines_writeLocal (hat : act.At m frame D) {slot : Nat} {v : Value}
    (hv : m.Fair → ∀ ⦃view : View⦄, act.Sees m view →
      view.machine.Admits (view.typing.slot slot) v) :
    Refines pre m (writeLocal slot v frame) (Plain.assign slot v frame.bare)
      (fun a b => b = a.bare) fun frame' m' => act.At m' frame' (D.insert slot) :=
  refines_update hat (f := fun heap => frame.write heap slot v)
    (g := fun heap => frame.bare.write heap slot v) (frame.sets_write m.heap slot v)
    (frame.cellsOnly_write m.heap slot v)
    (fun _ halike => frame.write_bare halike slot v) hv

/-- Writing an upvalue. -/
theorem refines_setUpvalue (h : m.Sound) (frame : Frame) (i : Nat) (v : Value) :
    Refines pre m
      (do
        let cell ← Run.ofExcept (frame.upvalue i)
        Run.setHeap ((← Run.heap).setCell cell v))
      (do
        let cell ← Plain.ofExcept (frame.bare.upvalue i)
        Plain.setHeap ((← Plain.heap).setCell cell v))
      (fun a b => b = a) fun _ _ => True := by
  have hbare : frame.bare.upvalue i = frame.upvalue i := rfl
  rw [hbare]
  refine (Refines.ofExcept (Q := fun _ _ => True) h
    (fun e he => isViolation_of_isCodeFault (isCodeFault_upvalue he))
    fun _ _ => trivial).bind fun cell m₁ hev₁ _ => ?_
  refine Refines.heap hev₁.sound fun plain halike => ?_
  have hcells : Frame.CellsOnly m₁.heap (m₁.heap.setCell cell v) := ⟨rfl, rfl⟩
  exact (Refines.setHeap (.setCells hev₁.sound hcells) (halike.setCell cell v)).mono
    (fun hpre _ => hpre) (fun _ _ hab => hab) fun _ _ _ _ => trivial

theorem Engine.realm_setGlobal (e : Engine) (name : String) (v : Value) :
    (e.setGlobal name v).realm = e.realm.setGlobal name v := by
  unfold Engine.realm Realm.setGlobal
  congr 1
  funext other
  dsimp only
  split
  · next heq =>
    subst heq
    exact e.global_setGlobal_self other v
  · next hne => exact e.global_setGlobal_of_ne hne v

/-- Writing a global variable. -/
theorem refines_setGlobal (h : m.Sound) (engine : EngineId) (name : String) (v : Value) :
    Refines pre m (modify fun m => m.modifyEngine engine fun e => e.setGlobal name v)
      (modify fun w => { w with
        realms := w.realms.modify engine fun realm => realm.setGlobal name v })
      (fun a b => b = a) fun _ _ => True := by
  have hrealms (w : World) (halike : m.Alike w) :
      w.realms.modify engine (fun realm => realm.setGlobal name v) =
        (m.modifyEngine engine fun e => e.setGlobal name v).realms := by
    rw [halike.realms]
    refine Array.ext_getElem? fun i => ?_
    simp only [Machine.realms, Machine.modifyEngine, Array.getElem?_modify, Array.getElem?_map]
    split
    · cases m.engines[i]? with
      | none => rfl
      | some e => exact congrArg some (e.realm_setGlobal name v).symm
    · rfl
  exact Ends.step (.of_same h rfl rfl rfl rfl rfl (fun _ => rfl) rfl)
    (.of_same rfl rfl) rfl trivial
    fun _ w halike => ⟨_, _, rfl, rfl, halike.program, halike.heap, hrealms w halike⟩

/-- Writing a key of a value, by whatever way. -/
theorem refines_storeIndex (h : m.Sound) (target key v : Value)
    (store : Heap → Except RuntimeError Heap)
    (hstore : store m.heap = storeIndex m.heap target key v) :
    Refines pre m (do Run.setHeap (← Run.ofExcept (store (← Run.heap))))
      (do Plain.setHeap (← Plain.ofExcept (storeIndex (← Plain.heap) target key v)))
      (fun a b => b = a) fun _ _ => True := by
  refine Refines.heap h fun plain halike => ?_
  rw [hstore]
  cases hheap : storeIndex m.heap target key v with
  | error e =>
    have hplain : storeIndex plain target key v = .error e := by
      cases target with
      | table ref =>
        unfold storeIndex at hheap ⊢
        cases hkey : Key.ofValue key with
        | ok k => simp [hkey] at hheap
        | error e' => simpa [hkey] using hheap
      | _ => exact hheap
    rw [hplain]
    exact Refines.raise h (isViolation_of_isCodeFault (isCodeFault_storeIndex hheap))
  | ok heap =>
    cases target with
    | table ref =>
      unfold storeIndex at hheap ⊢
      cases hkey : Key.ofValue key with
      | error e' => simp [hkey] at hheap
      | ok k =>
        simp only [hkey, Except.ok.injEq] at hheap
        subst hheap
        have hlaid := (h.laid ref).set k v
        have hev : m.Evolves (m.setHeap (m.heap.setTable ref ((m.heap.table ref).set k v))) :=
          .setHeap_of_functions h (.setTable _ (Table.layout_set ..))
            (Heap.laid_setTable h.laid hlaid ref) rfl
        have hsame := (halike.tables ref).set (h.laid ref).regular k v
        exact (Refines.setHeap hev (halike.setTable hsame ref)).mono (fun hpre _ => hpre)
          (fun _ _ hab => hab) fun _ _ _ _ => trivial
    | _ => cases hheap

end Steps

/-! ## How statements leave -/

/-- What is left of a flow without types. -/
def Flow.bare (out : Flow × Frame) : Flow × Frame :=
  (out.1, out.2.bare)

/-- Whether a statement returns what a call returns. -/
def Stmt.passesOn : Stmt → Bool
  | .ret [.call _ _] => true
  | _ => false

/-- Some return of a function passes on the results of a call. -/
def Prototype.PassesOn (proto : Prototype) : Prop :=
  ¬ Stmt.BlockEvery (fun s => s.passesOn = false) proto.body

namespace Activation

variable (act : Activation)

/-- What a view says about a statement of the body. -/
structure Follows (view : View) (s : Stmt) : Prop where
  flows : Flows view.machine.knowledge view.typing view.returns s
  passes : s.passesOn = true → act.proto.PassesOn

/-- Results are as the return types say, in every view. -/
def ResultsFit (m : Machine) (vs : List Value) : Prop :=
  ∀ ⦃view : View⦄, act.Sees m view →
    ∀ i, view.machine.FitsAt act.proto.PassesOn view.returns vs i

/-- How statements leave: `D` is assigned before them and `D'` after them, `through` tells
whether the next statement can run, and `inLoop` whether there is a loop to be left. -/
inductive Leaves (m : Machine) (D D' : Slots) (through inLoop : Bool) : Flow × Frame → Prop
  | normal {frame : Frame} : through = true → act.At m frame D' →
    Leaves m D D' through inLoop (.normal, frame)
  | leave {frame : Frame} : inLoop = true → act.At m frame D →
    Leaves m D D' through inLoop (.leave, frame)
  | ret {frame : Frame} {vs : List Value} : (m.Fair → act.ResultsFit m vs) →
    Leaves m D D' through inLoop (.ret vs, frame)

variable {act}

/-- A view says something about every statement of the body. -/
theorem Sees.follows {m : Machine} {view : View} (h : act.Sees m view) :
    Stmt.BlockEvery (act.Follows view) act.proto.body := by
  by_cases hpasses : act.proto.PassesOn
  · exact h.typed.flows.mono fun s hs => ⟨hs, fun _ => hpasses⟩
  · have hnone := Classical.not_not.1 hpasses
    refine .imp₂ (fun s hflows hno => ⟨hflows, fun hyes => ?_⟩) h.typed.flows hnone
    rw [hno] at hyes
    cases hyes

theorem At.subset {m : Machine} {frame : Frame} {D E : Slots}
    (hsub : E.Subset D) (h : act.At m frame D) : act.At m frame E :=
  ⟨h.isFrame, h.evolves, fun hfair => (h.typed hfair).subset hsub⟩

/-- Less may be said about how a statement leaves. -/
theorem Leaves.mono {m : Machine} {D D' E E' : Slots} {through through' inLoop : Bool}
    {out : Flow × Frame} (h : act.Leaves m D D' through inLoop out) (hE : E.Subset D)
    (hE' : E'.Subset D') (hthrough : through = true → through' = true) :
    act.Leaves m E E' through' inLoop out := by
  cases h with
  | normal hyes hat => exact .normal (hthrough hyes) (hat.subset hE')
  | leave hyes hat => exact .leave hyes (hat.subset hE)
  | ret hfit => exact .ret hfit

end Activation

/-! ## Loops -/

section Loops

variable {act : Activation} {D E E' : Slots} {through inLoop : Bool}

/-- What is said about code of a block, for all machines and frames that it can start with. -/
def Activation.Runs (act : Activation) (body : Frame → Run (Flow × Frame))
    (plain : Frame → Plain (Flow × Frame)) (D D' : Slots) (through inLoop : Bool) : Prop :=
  ∀ {m : Machine} {frame : Frame}, act.At m frame D →
    Refines True m (body frame) (plain frame.bare) (fun out out' => out' = Flow.bare out)
      fun out m' => act.Leaves m' D D' through inLoop out

/-- After a round the loop goes on with what was assigned before the loop. -/
theorem refines_afterRound {m : Machine} {again : Frame → Run (Flow × Frame)}
    {plainAgain : Frame → Plain (Flow × Frame)} {out : Flow × Frame} (h : m.Sound)
    (hout : act.Leaves m E E' through true out) (hE : D.Subset E) (hE' : D.Subset E')
    (hagain : ∀ frame, act.At m frame D →
      Refines True m (again frame) (plainAgain frame.bare) (fun out out' => out' = Flow.bare out)
        fun out m' => act.Leaves m' D D true inLoop out) :
    Refines True m (afterRound again out) (Plain.afterRound plainAgain (Flow.bare out))
      (fun out out' => out' = Flow.bare out) fun out m' => act.Leaves m' D D true inLoop out := by
  cases hout with
  | normal _ hat => exact hagain _ (hat.subset hE')
  | leave _ hat => exact Refines.pure h rfl (.normal rfl (hat.subset hE))
  | ret hfit => exact Refines.pure h rfl (.ret hfit)

theorem runs_whileLoop {cond : Frame → Run Value} {plainCond : Frame → Plain Value}
    {body : Frame → Run (Flow × Frame)} {plainBody : Frame → Plain (Flow × Frame)}
    (hcond : ∀ {m : Machine} {frame : Frame}, act.At m frame D →
      Refines True m (cond frame) (plainCond frame.bare) (fun v u => u = v) fun _ _ => True)
    (hsub : D.Subset E') (hbody : act.Runs body plainBody D E' through true) (rounds : Nat) :
    act.Runs (whileLoop (fun f => do return (← cond f).isTruthy) body rounds)
      (Plain.whileLoop plainCond plainBody rounds) D D true inLoop := by
  induction rounds with
  | zero =>
    intro m frame hat
    exact Refines.throw hat.sound nofun
  | succ rounds ih =>
    intro m frame hat
    rw [whileLoop, Plain.whileLoop, bind_assoc]
    refine (hcond hat).bind fun v m₁ hev₁ _ => ?_
    have hat₁ := hat.mono hev₁
    rw [pure_bind]
    cases v.isTruthy with
    | false => exact Refines.pure hat₁.sound rfl (.normal rfl hat₁)
    | true =>
      refine (hbody hat₁).bind fun out m₂ hev₂ hout => ?_
      exact refines_afterRound hev₂.sound hout (.refl D) hsub fun frame' hat' => ih hat'

/-- The control variable of a loop takes a value in every machine that comes after one. -/
def Activation.LoopTakes (act : Activation) (m : Machine) (slot : Nat) (v : Value) : Prop :=
  ∀ {m₁ : Machine}, m.Evolves m₁ → m₁.Fair → ∀ ⦃view : View⦄, act.Sees m₁ view →
    view.machine.Admits (view.typing.slot slot) v

/-- The control variable of a loop takes the values of a range. -/
def Activation.RangeTakes (act : Activation) (m : Machine) (slot : Nat) : Range → Prop
  | .int _ _ _ => ∀ n, act.LoopTakes m slot (.int n)
  | .float _ _ _ => ∀ x, act.LoopTakes m slot (.float x)

/-- A value has all types that the step of a loop has. -/
def Activation.StepFits (act : Activation) (m : Machine) (step : Option Expr) (v : Value) : Prop :=
  ∀ ⦃view : View⦄, act.Sees m view → ∀ ⦃type : Ty⦄,
    StepType view.machine.knowledge view.typing step type → view.machine.Admits type v

/-- The control variable takes the values of the range that its operands give. -/
theorem Activation.rangeTakes {m : Machine} {start limit : Expr} {step : Option Expr}
    {body : List Stmt} {slot : Nat} {a b c : Value} {range : Range}
    (hstart : m.Fair → act.Fits m start a) (hstep : m.Fair → act.StepFits m step c)
    (hrange : Range.ofValues a b c = .ok range)
    (hflows : ∀ ⦃m : Machine⦄ ⦃view : View⦄, act.Sees m view →
      act.Follows view (.forLoop slot start limit step body)) :
    act.RangeTakes m slot range := by
  have htakes {v : Value} (hv : ∀ (m : Machine) (s l d : Ty), m.Admits s a → m.Admits d c →
      m.Admits (Ty.loopType s l d) v) : act.LoopTakes m slot v := by
    intro m₁ hev₁ hfair view hview
    obtain ⟨s, l, d, hs, -, hd, htakes⟩ := (hflows hview).flows
    have hfair₀ := hfair.of_evolves hev₁
    have hview₀ := hview.earlier hev₁.grows
    exact admits_of_takes hview htakes
      (hv view.machine s l d (hstart hfair₀ hview₀ hs) (hstep hfair₀ hview₀ hd))
  cases range with
  | int i j k => exact fun n => htakes fun m s l d ha hc => Ty.admits_loop ha hc hrange n
  | float x y z => exact fun u => htakes fun m s l d ha hc => Ty.admits_loop ha hc hrange u

variable {m₀ : Machine} {slot : Nat} {body : Frame → Run (Flow × Frame)}
  {plainBody : Frame → Plain (Flow × Frame)}

/-- A round of a numeric loop. -/
theorem refines_round {m : Machine} {frame : Frame} (hev : m₀.Evolves m) (hat : act.At m frame D)
    (hbody : act.Runs body plainBody (D.insert slot) E' through true) (hsub : D.Subset E')
    {v : Value} (hv : act.LoopTakes m₀ slot v) {again : Frame → Run (Flow × Frame)}
    {plainAgain : Frame → Plain (Flow × Frame)}
    (hagain : ∀ m frame, m₀.Evolves m → act.At m frame D →
      Refines True m (again frame) (plainAgain frame.bare) (fun out out' => out' = Flow.bare out)
        fun out m' => act.Leaves m' D D true inLoop out) :
    Refines True m
      (do let frame ← declareLocal slot v frame; afterRound again (← body frame))
      (do let frame ← Plain.declare slot v frame.bare; Plain.afterRound plainAgain (← plainBody frame))
      (fun out out' => out' = Flow.bare out) fun out m' => act.Leaves m' D D true inLoop out := by
  refine (refines_declareLocal hat fun hfair => hv hev hfair).bind fun frame₁ m₁ hev₁ hat₁ => ?_
  refine (hbody hat₁).bind fun out m₂ hev₂ hout => ?_
  exact refines_afterRound hev₂.sound hout (D.subset_insert slot) hsub fun frame₂ hat₂ =>
    hagain m₂ frame₂ ((hev.trans hev₁).trans hev₂) hat₂

theorem runs_intLoop (hbody : act.Runs body plainBody (D.insert slot) E' through true)
    (hsub : D.Subset E') (hv : ∀ n, act.LoopTakes m₀ slot (.int n)) (step : Int) (count : Nat) :
    ∀ (i : Int) {m : Machine} {frame : Frame}, m₀.Evolves m → act.At m frame D →
      Refines True m (intLoop slot body step count i frame)
        (Plain.intLoop slot plainBody step count i frame.bare)
        (fun out out' => out' = Flow.bare out)
        fun out m' => act.Leaves m' D D true inLoop out := by
  induction count with
  | zero =>
    intro i m frame _ hat
    exact Refines.pure hat.sound rfl (.normal rfl hat)
  | succ count ih =>
    intro i m frame hev hat
    exact refines_round hev hat hbody hsub (hv _) fun _ _ => ih (i + step)

theorem runs_floatLoop (hbody : act.Runs body plainBody (D.insert slot) E' through true)
    (hsub : D.Subset E') (hv : ∀ x, act.LoopTakes m₀ slot (.float x)) (limit step : Float)
    (rounds : Nat) : ∀ (x : Float) {m : Machine} {frame : Frame}, m₀.Evolves m →
      act.At m frame D → Refines True m (floatLoop slot body limit step rounds x frame)
        (Plain.floatLoop slot plainBody limit step rounds x frame.bare)
        (fun out out' => out' = Flow.bare out)
        fun out m' => act.Leaves m' D D true inLoop out := by
  induction rounds with
  | zero =>
    intro x m frame _ hat
    exact Refines.throw hat.sound nofun
  | succ rounds ih =>
    intro x m frame hev hat
    rw [floatLoop, Plain.floatLoop]
    split
    · exact refines_round hev hat hbody hsub (hv x) fun _ _ => ih (x + step)
    · exact Refines.pure hat.sound rfl (.normal rfl hat)

/-- A loop over a range, whose values the control variable takes. -/
theorem refines_rangeLoop {m : Machine} {frame : Frame} (hat : act.At m frame D)
    (hbody : act.Runs body plainBody (D.insert slot) E' through true) (hsub : D.Subset E')
    (rounds : Nat) (range : Range)
    (hv : act.RangeTakes m slot range) :
    Refines True m (rangeLoop slot body rounds range frame)
      (Plain.rangeLoop slot plainBody rounds range frame.bare)
      (fun out out' => out' = Flow.bare out) fun out m' => act.Leaves m' D D true inLoop out := by
  cases range with
  | int start limit step =>
    rw [rangeLoop, Plain.rangeLoop]
    split
    · exact Refines.raise hat.sound rfl
    · refine (Refines.ofExcept (Q := fun _ _ => True) hat.sound
        (fun e he => isViolation_of_isCodeFault (isCodeFault_intLimit he)) fun _ _ => trivial).bind
        fun bound m₁ hev₁ _ => ?_
      have hat₁ := hat.mono hev₁
      cases bound with
      | none => exact Refines.pure hat₁.sound rfl (.normal rfl hat₁)
      | some bound => exact runs_intLoop hbody hsub hv _ _ _ hev₁ hat₁
  | float start limit step =>
    rw [rangeLoop, Plain.rangeLoop]
    split
    · exact Refines.raise hat.sound rfl
    · exact runs_floatLoop hbody hsub hv _ _ _ _ (.refl hat.sound) hat

end Loops

/-! ## Results -/

theorem Plain.returned_eq {caller : Plain.Caller} {frame : Frame} {values : List Expr}
    (h : ∀ callee args, values ≠ [.call callee args]) :
    Plain.returned caller frame values = Plain.exprs caller frame values := by
  unfold Plain.returned
  split
  · exact absurd rfl (h _ _)
  · rfl

theorem Machine.FitsAt.of_covers {m : Machine} {passed : Prop} {returns types : List Ty}
    (hcovers : Covers returns types) {vs : List Value} {i : Nat} (h : m.FitsAt passed types vs i) :
    m.FitsAt passed returns vs i := by
  unfold Machine.FitsAt at h ⊢
  rcases hcovers i with hunknown | hsame
  · rw [hunknown]
    exact .inl (Ty.admits_unknown _ _ _)
  · rw [hsame]
    exact h

theorem Machine.FitsAt.imp {m : Machine} {passed passed' : Prop} {types : List Ty}
    {vs : List Value} {i : Nat} (himp : passed → passed') (h : m.FitsAt passed types vs i) :
    m.FitsAt passed' types vs i :=
  h.imp_right fun hpassed => ⟨hpassed.1, hpassed.2.1, himp hpassed.2.2⟩

/-- Values that have their types are as these say at every place. -/
theorem Machine.AdmitsAll.fitsAt {m : Machine} {types : List Ty} {vs : List Value}
    (h : m.AdmitsAll types vs) (passed : Prop) (i : Nat) : m.FitsAt passed types vs i := by
  left
  by_cases hlt : i < types.length
  · have hlt' : i < vs.length := h.length ▸ hlt
    rw [List.getElem?_eq_getElem hlt, List.getElem?_eq_getElem hlt']
    exact h.admits i _ _ (List.getElem?_eq_getElem hlt) (List.getElem?_eq_getElem hlt')
  · have hle := Nat.le_of_not_lt hlt
    rw [List.getElem?_eq_none hle, List.getElem?_eq_none (h.length ▸ hle)]
    exact Ty.admits_nil.2 rfl

section Results

variable {act : Activation} {m : Machine} {vs : List Value}

/-- Values that have all types of the expressions that are returned. -/
theorem Activation.AllFit.resultsFit {values : List Expr} (h : act.AllFit m values vs)
    (hcall : ∀ callee args, values ≠ [.call callee args])
    (hflows : ∀ ⦃m : Machine⦄ ⦃view : View⦄, act.Sees m view → act.Follows view (.ret values)) :
    act.ResultsFit m vs := by
  intro view hview i
  obtain ⟨types, htypes, hcovers⟩ := (hflows hview).flows
  cases htypes with
  | forward => exact absurd rfl (hcall _ _)
  | values htypes => exact .of_covers hcovers ((h hview htypes).fitsAt _ i)

/-- Results of a call that are passed on. -/
theorem Activation.CallFits.resultsFit {callee : Expr} {args : List Expr}
    (h : act.CallFits m false callee vs)
    (hflows : ∀ ⦃m : Machine⦄ ⦃view : View⦄, act.Sees m view →
      act.Follows view (.ret [.call callee args])) : act.ResultsFit m vs := by
  intro view hview i
  have hpasses : act.proto.PassesOn := (hflows hview).passes rfl
  obtain ⟨types, htypes, hcovers⟩ := (hflows hview).flows
  refine .of_covers hcovers ?_
  cases htypes with
  | forward hcallee hreturns =>
    exact (h hview hcallee hreturns i fun hno => by cases hno).imp fun _ => hpasses
  | values htypes =>
    cases htypes with
    | cons htype hnone =>
      cases hnone
      -- one type was found, so the places after the first are taken to be nil
      cases i with
      | succ i => exact .inr ⟨Nat.succ_pos i, rfl, hpasses⟩
      | zero =>
        left
        cases htype with
        | any => exact Ty.admits_unknown _ _ _
        | call hcallee hreturns =>
          have hhead := (h hview hcallee hreturns 0 fun _ => rfl).head
          cases vs <;> exact hhead

end Results

/-! ## The induction -/

section Induction

variable {act : Activation} {caller : Caller} {plain : Plain.Caller}

/-- A statement that leaves the frame as it is. -/
theorem Refines.thenNormal {α β : Type} {x : Run α} {p : Plain β} {m : Machine} {frame : Frame}
    {D : Slots} {A : α → β → Prop} {Q : α → Machine → Prop} (hat : act.At m frame D)
    (inLoop : Bool) (hx : Refines True m x p A Q) :
    Refines True m (x >>= fun _ => Pure.pure (Flow.normal, frame))
      (p >>= fun _ => Pure.pure (Flow.normal, frame.bare)) (fun out out' => out' = Flow.bare out)
      fun out m' => act.Leaves m' D D true inLoop out :=
  hx.map (fun _ _ _ => rfl) fun _ _ hev _ => .normal rfl (hat.mono hev)

/-- Code of the step of a loop. -/
theorem EmitsStep.refines (hact : act.Ok) (hcalls : CallsOk caller plain) {step : Option Expr}
    {d : Emitted} (h : EmitsStep act.setting step d) {m : Machine} {frame : Frame} {D : Slots}
    (hat : act.At m frame D) (hreads : act.entry.Fair → Expr.optionReadsOnly D step = true) :
    Refines True m (d.run caller frame) (Plain.optional plain frame.bare (.int 1) step)
      (fun v u => u = v) fun v m' => m'.Fair → act.StepFits m' step v := by
  cases h with
  | none =>
    rw [Emitted.run_int, eval, pure_bind]
    refine Refines.pure hat.sound rfl fun _ view _ type htype => ?_
    cases htype
    rfl
  | some he => exact he.refines hact hcalls hat hreads

theorem EmitsStep.fits {σ : Setting} {step : Option Expr} {d : Emitted} (h : EmitsStep σ step d) :
    d.Fits := by
  cases h with
  | none => rfl
  | some he => exact he.fits

/-- A value of an expression that a local takes. -/
theorem Activation.Fits.takes {m : Machine} {e : Expr} {v : Value} {slot : Nat}
    (h : act.Fits m e v) {s : Stmt}
    (hflows : ∀ ⦃m : Machine⦄ ⦃view : View⦄, act.Sees m view → act.Follows view s)
    (hs : s = .declare slot (some e) ∨ s = .assign slot e) :
    ∀ ⦃view : View⦄, act.Sees m view → view.machine.Admits (view.typing.slot slot) v := by
  intro view hview
  obtain ⟨type, htype, htakes⟩ : ∃ type, HasType view.machine.knowledge view.typing e type ∧
      view.typing.Takes view.machine.shapes slot type := by
    have hflow := (hflows hview).flows
    rcases hs with rfl | rfl <;> exact hflow
  exact Activation.admits_of_takes hview htakes (h hview htype)

mutual

/-- **Statements**: code of a statement does what the statement does, and keeps the types of
locals. -/
theorem EmitsStmt.runs (hact : act.Ok) (hcalls : CallsOk caller plain) (rounds : Nat) :
    ∀ {inLoop : Bool} {s : Stmt} {c : Step}, EmitsStmt act.setting inLoop s c →
    ∀ {D : Slots}, (act.entry.Fair → s.readsAssigned D = true) →
    (∀ ⦃m : Machine⦄ ⦃view : View⦄, act.Sees m view → s.Every (act.Follows view)) →
    act.Runs (exec caller rounds c) (Plain.stmt plain rounds s) D (s.assigns D) s.fallsThrough
      inLoop
  | inLoop, _, _, @EmitsStmt.declare _ _ slot e _ _ he, D, hreads, hflows, m, frame, hat => by
    rw [exec, Emitted.eval_boxed, Plain.stmt, Plain.optional, Stmt.assigns]
    refine (he.refines hact hcalls hat hreads).bind fun v m₁ hev₁ hv => ?_
    have hat₁ := hat.mono hev₁
    exact (refines_declareLocal hat₁ fun hfair => (hv hfair).takes hflows (.inl rfl)).map
      (fun _ _ h => congrArg (Prod.mk Flow.normal) h) fun frame₂ m₂ _ hat₂ => .normal rfl hat₂
  | inLoop, _, _, @EmitsStmt.declareNil _ _ slot _, D, _, hflows, m, frame, hat => by
    rw [exec, eval, pure_bind, Plain.stmt, Plain.optional, pure_bind, Stmt.assigns]
    refine (refines_declareLocal hat fun _ view hview => ?_).map
      (fun _ _ h => congrArg (Prod.mk Flow.normal) h) fun frame₂ m₂ _ hat₂ => .normal rfl hat₂
    exact Activation.admits_of_takes hview (hflows hview).flows (Ty.admits_nil.2 rfl)
  | inLoop, _, _, @EmitsStmt.assign _ _ slot e _ _ he, D, hreads, hflows, m, frame, hat => by
    rw [exec, Emitted.eval_boxed, Plain.stmt, Stmt.assigns]
    refine (he.refines hact hcalls hat hreads).bind fun v m₁ hev₁ hv => ?_
    have hat₁ := hat.mono hev₁
    exact (refines_writeLocal hat₁ fun hfair => (hv hfair).takes hflows (.inr rfl)).map
      (fun _ _ h => congrArg (Prod.mk Flow.normal) h) fun frame₂ m₂ _ hat₂ => .normal rfl hat₂
  | inLoop, _, _, @EmitsStmt.setUpvalue _ _ i e _ _ he, D, hreads, _, m, frame, hat => by
    rw [exec, Emitted.eval_boxed, Plain.stmt]
    refine (he.refines hact hcalls hat hreads).bind fun v m₁ hev₁ _ => ?_
    have hstep := Refines.thenNormal (hat.mono hev₁) inLoop
      (refines_setUpvalue hev₁.sound frame i v)
    simp only [bind_assoc] at hstep
    exact hstep
  | inLoop, _, _, @EmitsStmt.setGlobal _ _ name e _ he, D, hreads, _, m, frame, hat => by
    rw [exec, Emitted.eval_boxed, Plain.stmt]
    refine (he.refines hact hcalls hat hreads).bind fun v m₁ hev₁ _ => ?_
    exact Refines.thenNormal (hat.mono hev₁) inLoop
      (refines_setGlobal hev₁.sound frame.engine name v)
  | inLoop, _, _, @EmitsStmt.setField _ _ target key value _ _ f l ht hkey hl hf hv, D, hreads, _,
    m, frame, hat => by
    cases Expr.eq_of_constantKey? hkey
    rw [exec, Emitted.eval_boxed, Plain.stmt]
    simp only [Stmt.readsAssigned, Bool.and_eq_true] at hreads
    refine (ht.refines hact hcalls hat fun hfair => (hreads hfair).1.1).bind
      fun t m₁ hev₁ _ => ?_
    have hat₁ := hat.mono hev₁
    rw [Emitted.eval_boxed, Plain.expr, pure_bind]
    refine (hv.refines hact hcalls hat₁ fun hfair => (hreads hfair).2).bind
      fun v m₂ hev₂ _ => ?_
    have hat₂ := hat₁.mono hev₂
    have hl₂ := hl.mono hat₂.evolves.grows.shapes hact.sound.forest hat₂.sound.forest
    have hstep := Refines.thenNormal hat₂ inLoop
      (refines_storeIndex hat₂.sound t (.str f.key) v (fun heap => storeField heap f t v)
        (storeField_eq hat₂.sound.laid hl₂ hf t v))
    simp only [bind_assoc] at hstep
    exact hstep
  | inLoop, _, _, .setIndex ht hk hv, D, hreads, _, m, frame, hat => by
    rw [exec, Emitted.eval_boxed, Plain.stmt]
    simp only [Stmt.readsAssigned, Bool.and_eq_true] at hreads
    refine (ht.refines hact hcalls hat fun hfair => (hreads hfair).1.1).bind
      fun t m₁ hev₁ _ => ?_
    have hat₁ := hat.mono hev₁
    rw [Emitted.eval_boxed]
    refine (hk.refines hact hcalls hat₁ fun hfair => (hreads hfair).1.2).bind
      fun k m₂ hev₂ _ => ?_
    have hat₂ := hat₁.mono hev₂
    rw [Emitted.eval_boxed]
    refine (hv.refines hact hcalls hat₂ fun hfair => (hreads hfair).2).bind
      fun v m₃ hev₃ _ => ?_
    have hat₃ := hat₂.mono hev₃
    have hstep := Refines.thenNormal hat₃ inLoop
      (refines_storeIndex hat₃.sound t k v (fun heap => storeIndex heap t k v) rfl)
    simp only [bind_assoc] at hstep
    exact hstep
  | inLoop, _, _, @EmitsStmt.call _ _ callee args c cs id hc hcs hsite, D, hreads, _, m, frame,
    hat => by
    rw [exec, Plain.stmt, Plain.expr]
    simp only [Stmt.readsAssigned, Expr.readsOnly, Bool.and_eq_true] at hreads
    have hcall := refines_evalCall hact hcalls hat hcs hsite
      (hc.refines hact hcalls hat fun hfair => (hreads hfair).1)
      fun m₁ hev₁ => hcs.refines hact hcalls (hat.mono hev₁) fun hfair => (hreads hfair).2
    have hstep := hcall.thenNormal hat inLoop
    simp only [bind_assoc] at hstep ⊢
    exact hstep
  | inLoop, _, _, .discard he, D, hreads, _, m, frame, hat => by
    rw [exec, Emitted.eval_boxed, Plain.stmt]
    exact (he.refines hact hcalls hat hreads).thenNormal hat inLoop
  | inLoop, _, _, @EmitsStmt.branch _ _ cond thenBlock elseBlock _ ts es hc ht he, D, hreads,
    hflows, m, frame, hat => by
    rw [exec, Emitted.eval_toTruth, bind_assoc, Plain.stmt, Stmt.assigns, Stmt.fallsThrough]
    simp only [Stmt.readsAssigned, Bool.and_eq_true] at hreads
    refine (hc.refines hact hcalls hat fun hfair => (hreads hfair).1.1).bind
      fun v m₁ hev₁ _ => ?_
    have hat₁ := hat.mono hev₁
    rw [pure_bind]
    cases v.isTruthy with
    | true =>
      refine (EmitsBlock.runs hact hcalls rounds ht (fun hfair => (hreads hfair).1.2)
        (fun _ _ hview => (hflows hview).2.1) hat₁).mono (fun _ _ => trivial)
        (fun _ _ h => h) fun out m' _ hout => ?_
      exact hout.mono (.refl D) (Slots.inter_subset_left _ _) fun h => by rw [h, Bool.true_or]
    | false =>
      refine (EmitsBlock.runs hact hcalls rounds he (fun hfair => (hreads hfair).2)
        (fun _ _ hview => (hflows hview).2.2) hat₁).mono (fun _ _ => trivial)
        (fun _ _ h => h) fun out m' _ hout => ?_
      exact hout.mono (.refl D) (Slots.inter_subset_right _ _) fun h => by rw [h, Bool.or_true]
  | inLoop, _, _, @EmitsStmt.whileLoop _ _ cond body _ bs hc hb, D, hreads, hflows, m, frame,
    hat => by
    rw [exec, Plain.stmt]
    simp only [Stmt.readsAssigned, Bool.and_eq_true] at hreads
    simp only [Emitted.eval_toTruth]
    refine runs_whileLoop (fun hat' => ?_) (Stmt.subset_blockAssigns D body)
      (EmitsBlock.runs hact hcalls rounds hb (fun hfair => (hreads hfair).2)
        fun _ _ hview => (hflows hview).2) rounds hat
    exact (hc.refines hact hcalls hat' fun hfair => (hreads hfair).1).mono (fun _ _ => trivial)
      (fun _ _ h => h) fun _ _ _ _ => trivial
  | inLoop, _, _, @EmitsStmt.forLoop _ _ slot start limit step body _ _ _ bs _ hs hl hd hb, D,
    hreads, hflows, m, frame, hat => by
    rw [exec, evalRange_range hs.fits hl.fits hd.fits, Plain.stmt]
    simp only [Stmt.readsAssigned, Bool.and_eq_true] at hreads
    simp only [bind_assoc]
    refine (hs.refines hact hcalls hat fun hfair => (hreads hfair).1.1.1).bind
      fun a m₁ hev₁ ha => ?_
    have hat₁ := hat.mono hev₁
    refine (hl.refines hact hcalls hat₁ fun hfair => (hreads hfair).1.1.2).bind
      fun b m₂ hev₂ _ => ?_
    have hat₂ := hat₁.mono hev₂
    refine (hd.refines hact hcalls hat₂ fun hfair => (hreads hfair).1.2).bind
      fun c m₃ hev₃ hc => ?_
    have hat₃ := hat₂.mono hev₃
    have ha₃ (hfair : m₃.Fair) : act.Fits m₃ start a :=
      (ha ((hfair.of_evolves hev₃).of_evolves hev₂)).mono (hev₂.trans hev₃)
    refine (Refines.ofExcept (Q := fun range m₄ => Range.ofValues a b c = .ok range ∧ m₄ = m₃)
      hat₃.sound (fun e he => isViolation_of_isCodeFault (isCodeFault_ofValues he))
      fun range hrange => ⟨hrange, rfl⟩).bind
      fun range m₄ _ hrange => ?_
    obtain ⟨hrange, rfl⟩ := hrange
    exact refines_rangeLoop hat₃
      (EmitsBlock.runs hact hcalls rounds hb (fun hfair => (hreads hfair).2)
        fun _ _ hview => (hflows hview).2)
      ((D.subset_insert slot).trans (Stmt.subset_blockAssigns _ body)) rounds range
      (Activation.rangeTakes ha₃ hc hrange fun _ _ hview => (hflows hview).1)
  | inLoop, _, _, @EmitsStmt.retCall _ _ callee args c cs id hc hcs hsite, D, hreads, hflows, m,
    frame, hat => by
    rw [exec, Plain.stmt, Plain.returned]
    simp only [Stmt.readsAssigned, Expr.allReadOnly, Expr.readsOnly, Bool.and_eq_true,
      and_true] at hreads
    have hcall := refines_evalCall hact hcalls hat hcs hsite
      (hc.refines hact hcalls hat fun hfair => (hreads hfair).1)
      fun m₁ hev₁ => hcs.refines hact hcalls (hat.mono hev₁) fun hfair => (hreads hfair).2
    refine hcall.map (fun vs us h => ?_) fun vs m' _ hvs => .ret fun hfair =>
      (hvs hfair).resultsFit hflows
    rw [h]
    rfl
  | inLoop, _, _, .ret hcall hcs, D, hreads, hflows, m, frame, hat => by
    rw [exec, Plain.stmt, Plain.returned_eq hcall]
    exact (hcs.refines hact hcalls hat hreads).map (fun vs us h => by rw [h]; rfl)
      fun vs m' _ hvs => .ret fun hfair => (hvs hfair).resultsFit hcall hflows
  | _, _, _, .breakLoop, D, _, _, m, frame, hat => by
    rw [exec, Plain.stmt]
    exact Refines.pure hat.sound rfl (.leave rfl hat)

/-- Code of a block. -/
theorem EmitsBlock.runs (hact : act.Ok) (hcalls : CallsOk caller plain) (rounds : Nat) :
    ∀ {inLoop : Bool} {block : List Stmt} {cs : List Step}, EmitsBlock act.setting inLoop block cs →
    ∀ {D : Slots}, (act.entry.Fair → Stmt.blockReadsAssigned D block = true) →
    (∀ ⦃m : Machine⦄ ⦃view : View⦄, act.Sees m view →
      Stmt.BlockEvery (act.Follows view) block) →
    act.Runs (execBlock caller rounds cs) (Plain.block plain rounds block) D
      (Stmt.blockAssigns D block) (Stmt.blockFallsThrough block) inLoop
  | _, _, _, .nil, D, _, _, m, frame, hat => by
    rw [execBlock, Plain.block]
    exact Refines.pure hat.sound rfl (.normal rfl hat)
  | inLoop, _, _, @EmitsBlock.cons _ _ s rest _ _ hs hrest, D, hreads, hflows, m, frame, hat => by
    rw [execBlock, Plain.block]
    simp only [Stmt.blockReadsAssigned, Bool.and_eq_true] at hreads
    refine (EmitsStmt.runs hact hcalls rounds hs (fun hfair => (hreads hfair).1)
      (fun _ _ hview => (hflows hview).1) hat).bind fun out m₁ hev₁ hout => ?_
    cases hout with
    | normal hthrough hat₁ =>
      refine (EmitsBlock.runs hact hcalls rounds hrest (fun hfair => (hreads hfair).2)
        (fun _ _ hview => (hflows hview).2) hat₁).mono (fun _ _ => trivial)
        (fun _ _ h => h) fun out m' _ hout => ?_
      refine hout.mono (Stmt.subset_assigns D s) (.refl _) fun hrestThrough => ?_
      cases rest with
      | nil => exact hthrough
      | cons s' rest => exact hrestThrough
    | leave hyes hat₁ => exact Refines.pure hat₁.sound rfl (.leave hyes hat₁)
    | ret hfit => exact Refines.pure hev₁.sound rfl (.ret hfit)

end
end Induction
end AdaptiveScript
