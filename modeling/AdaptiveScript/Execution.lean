import AdaptiveScript.Arithmetic
import AdaptiveScript.Frame
import AdaptiveScript.Loop
import AdaptiveScript.Machine

/-!
# Running specialized code

`eval` runs the code of an expression and `exec` that of a statement.  Expressions never
change the locals of their own frame except through cells, so `eval` only reads the
frame, while `exec` passes it on.

Calls are left to a parameter.  This keeps both functions structural on the code; the
knot is tied where calls are answered.  Loops that need not end are bounded by a number
of rounds, and running out of rounds is told apart from every error of the program.
-/

namespace AdaptiveScript

/-- Computations of a running program. -/
abbrev Run := ExceptT Stop (StateM Machine)

namespace Run

/-- Stop with an error. -/
def raise {α : Type} (e : RuntimeError) : Run α :=
  throw (.error e)

/-- Go on with a result or stop with its error. -/
def ofExcept {α : Type} : Except RuntimeError α → Run α
  | .ok a => pure a
  | .error e => raise e

/-- An error of the program is an outcome like a result; running out of steps is none. -/
def settled {α : Type} : Except Stop α → Except Stop (Except RuntimeError α)
  | .ok a => .ok (.ok a)
  | .error (.error e) => .ok (.error e)
  | .error .exhausted => .error .exhausted

/-- Go on with an error as well as with a result. -/
def outcome {α : Type} (x : Run α) : Run (Except RuntimeError α) :=
  ExceptT.mk do
    return settled (← x.run)

theorem run_outcome {α : Type} (x : Run α) (m : Machine) :
    (outcome x).run.run m = (settled (x.run.run m).1, (x.run.run m).2) :=
  rfl

/-- The shared objects. -/
def heap : Run Heap := do
  return (← get).heap

/-- Change the shared objects. -/
def setHeap (heap : Heap) : Run Unit :=
  modify fun m => m.setHeap heap

/-- Write an event down. -/
def note (event : Event) : Run Unit :=
  modify fun m => m.note event

/-- Count something. -/
def count (engine : EngineId) (f : Stats → Stats) : Run Unit :=
  modify fun m => m.modifyEngine engine fun e => e.count f

/-- Read a local of a frame. -/
def readLocal (frame : Frame) (slot : Nat) : Run Value :=
  modifyGet fun m =>
    let v := frame.read m.heap slot
    (v, m.observe (frame.typeOf slot) v)

/-- Make a table. -/
def newTable (t : Table) : Run Value := do
  let (ref, heap) := (← heap).addTable t
  setHeap heap
  return .table ref

end Run

/-- How calls are answered: engine, call site, callee, arguments. -/
abbrev Caller := EngineId → SiteId → Value → List Value → Run (List Value)

/-! ## Fields -/

/-- Read a key of a value.  What is no key reads nil. -/
def indexValue (heap : Heap) (target key : Value) : Except RuntimeError Value :=
  match target with
  | .table ref =>
    match Key.ofValue key with
    | .ok k => .ok ((heap.table ref).get k)
    | .error _ => .ok .nil
  | v => .error (.index v.kind)

/-- Write a key of a value. -/
def storeIndex (heap : Heap) (target key v : Value) : Except RuntimeError Heap :=
  match target with
  | .table ref =>
    match Key.ofValue key with
    | .ok k => .ok (heap.setTable ref ((heap.table ref).set k v))
    | .error e => .error e
  | other => .error (.index other.kind)

/-- Read a constant key through its slot.  A table of another layout is read by key. -/
def loadField (heap : Heap) (field : Field) (target : Value) : Except RuntimeError Value :=
  match target with
  | .table ref =>
    let t := heap.table ref
    if t.layout.shape = field.shape then .ok (t.loadSlot field.slot) else .ok (t.getStr field.key)
  | v => .error (.index v.kind)

/-- Write a constant key through its slot.  A table of another layout is written by key. -/
def storeField (heap : Heap) (field : Field) (target v : Value) : Except RuntimeError Heap :=
  match target with
  | .table ref =>
    let t := heap.table ref
    if t.layout.shape = field.shape then (t.storeSlot field.slot v).map (heap.setTable ref)
    else .ok (heap.setTable ref (t.set (.str field.key) v))
  | other => .error (.index other.kind)

/-! ## Expressions -/

/-- Short-circuit evaluation: the right operand runs only if the left one does not
decide. -/
def shortCircuit {α : Type} (op : LogicalOp) (isTrue : α → Bool) (left : α) (right : Run α) :
    Run α :=
  match op with
  | .and => if isTrue left then right else pure left
  | .or => if isTrue left then pure left else right

mutual

/-- Run the code of an expression. -/
def eval (caller : Caller) (frame : Frame) : {r : Rep} → Code r → Run r.Carrier
  | _, .nil => pure Value.nil
  | _, .bool b => pure b
  | _, .int n => pure n
  | _, .float x => pure x
  | _, .constant index => pure (frame.constant index)
  | _, .slot index => Run.readLocal frame index
  | _, .upvalue index => do
    let cell ← Run.ofExcept (frame.upvalue index)
    return (← Run.heap).cell cell
  | _, .global name => do return ((← get).engine frame.engine).global name
  | _, .box r c => do return r.box (← eval caller frame c)
  | _, .unbox r c => do Run.ofExcept (r.unbox (← eval caller frame c))
  | _, .widen r c => do Run.ofExcept (r.widen (← eval caller frame c))
  | _, .truthy r c => do return r.isTruthy (← eval caller frame c)
  | _, .intArith op a b => do
    let x ← eval caller frame a
    let y ← eval caller frame b
    Run.ofExcept (intArith op x y)
  | _, .floatArith op a b => do
    let x ← eval caller frame a
    let y ← eval caller frame b
    return floatArith op x y
  | _, .intCompare op a b => do
    let x : Int64 ← eval caller frame a
    let y : Int64 ← eval caller frame b
    return op.holds (compare x.toInt y.toInt)
  | _, .intFloatCompare op a b => do
    let x ← eval caller frame a
    let y ← eval caller frame b
    return op.holdsPartial (Binary64.intOrder x y)
  | _, .floatIntCompare op a b => do
    let x ← eval caller frame a
    let y ← eval caller frame b
    return op.holdsPartial ((Binary64.intOrder y x).map Ordering.swap)
  | _, .floatCompare op a b => do
    let x ← eval caller frame a
    let y ← eval caller frame b
    return op.holdsPartial (Binary64.order x y)
  | _, .same op a b => do
    let x ← eval caller frame a
    let y ← eval caller frame b
    return Value.equals x y == (op == .eq)
  | _, .order op a b => do
    let x ← eval caller frame a
    let y ← eval caller frame b
    Run.ofExcept (compareValues op x y)
  | _, .concat a b => do
    let x ← eval caller frame a
    let y ← eval caller frame b
    Run.ofExcept ((concatenate x y).map Value.str)
  | _, .binary op a b => do
    let x ← eval caller frame a
    let y ← eval caller frame b
    Run.ofExcept (binary op x y)
  | _, .boolLogical op a b => do
    let x ← eval caller frame a
    shortCircuit op id x (eval caller frame b)
  | _, .logical op a b => do
    let x ← eval caller frame a
    shortCircuit op Value.isTruthy x (eval caller frame b)
  | _, .negInt c => do
    let x : Int64 ← eval caller frame c
    return -x
  | _, .negFloat c => do
    let x : Float ← eval caller frame c
    return -x
  | _, .not c => do
    let x : Bool ← eval caller frame c
    return !x
  | _, .unary op c => do
    let x ← eval caller frame c
    Run.ofExcept (unary (← Run.heap).border op x)
  | _, .field f target => do
    let t ← eval caller frame target
    Run.ofExcept (loadField (← Run.heap) f t)
  | _, .index target key => do
    let t ← eval caller frame target
    let k ← eval caller frame key
    Run.ofExcept (indexValue (← Run.heap) t k)
  | _, .first call => do
    let results ← evalCall caller frame call
    return results.headD Value.nil
  | _, .function proto captures => do
    let cells ← Run.ofExcept (captures.mapM frame.capture)
    let (ref, m) := (← get).instantiateWith frame.engine proto cells
    set m
    return Value.function ref
  | _, .table layout inits => do
    Run.newTable (← evalInits caller frame inits 1 (Table.ofLayout layout))

/-- Run the code of a call. -/
def evalCall (caller : Caller) (frame : Frame) : CallCode → Run (List Value)
  | .mk site callee args => do
    let f ← eval caller frame callee
    let vs ← evalAll caller frame args
    caller frame.engine site f vs

/-- Run the code of some expressions, from left to right. -/
def evalAll (caller : Caller) (frame : Frame) : List (Code .value) → Run (List Value)
  | [] => pure []
  | c :: cs => do
    let v ← eval caller frame c
    let vs ← evalAll caller frame cs
    return v :: vs

/-- Fill the entries of a table constructor; `next` is the key of the next positional
entry. -/
def evalInits (caller : Caller) (frame : Frame) : List Init → Int64 → Table → Run Table
  | [], _, t => pure t
  | .slot slot value :: rest, next, t => do
    let v ← eval caller frame value
    evalInits caller frame rest next (← Run.ofExcept (t.storeSlot slot v))
  | .named name value :: rest, next, t => do
    let v ← eval caller frame value
    evalInits caller frame rest next (t.set (.str name) v)
  | .keyed key value :: rest, next, t => do
    let k ← eval caller frame key
    let v ← eval caller frame value
    evalInits caller frame rest next (t.set (← Run.ofExcept (Key.ofValue k)) v)
  | .positional value :: rest, next, t => do
    let v ← eval caller frame value
    evalInits caller frame rest (next + 1) (t.set (.int next) v)

end

/-! ## Statements -/

/-- How a statement leaves. -/
inductive Flow where
  /-- The next statement runs. -/
  | normal
  /-- The innermost loop ends. -/
  | leave
  /-- The routine ends with results. -/
  | ret (values : List Value)

/-- The results of a routine whose body leaves this way. -/
def Flow.results : Flow → List Value
  | .ret values => values
  | _ => []

/-- Start a new variable in a slot of a frame. -/
def declareLocal (slot : Nat) (v : Value) (frame : Frame) : Run Frame := do
  let (frame, heap) := frame.declare (← Run.heap) slot v
  Run.setHeap heap
  return frame

/-- Assign to a slot of a frame. -/
def writeLocal (slot : Nat) (v : Value) (frame : Frame) : Run Frame := do
  let (frame, heap) := frame.write (← Run.heap) slot v
  Run.setHeap heap
  return frame

/-- Go on with a loop after one round of its body, unless the round left the loop. -/
def afterRound (again : Frame → Run (Flow × Frame)) : Flow × Frame → Run (Flow × Frame)
  | (.normal, frame) => again frame
  | (.leave, frame) => pure (.normal, frame)
  | (.ret values, frame) => pure (.ret values, frame)

/-- Run a body as long as a condition holds. -/
def whileLoop (cond : Frame → Run Bool) (body : Frame → Run (Flow × Frame)) :
    Nat → Frame → Run (Flow × Frame)
  | 0, _ => throw .exhausted
  | rounds + 1, frame => do
    if ← cond frame then
      afterRound (whileLoop cond body rounds) (← body frame)
    else return (.normal, frame)

/-- Run a body for `count` integers from `i` on, `step` apart.  Each round has a variable
of its own. -/
def intLoop (slot : Nat) (body : Frame → Run (Flow × Frame)) (step : Int) :
    Nat → Int → Frame → Run (Flow × Frame)
  | 0, _, frame => pure (.normal, frame)
  | count + 1, i, frame => do
    let frame ← declareLocal slot (.int (Int64.ofInt i)) frame
    afterRound (intLoop slot body step count (i + step)) (← body frame)

/-- Run a body for the floats from `x` to `limit`, `step` apart. -/
def floatLoop (slot : Nat) (body : Frame → Run (Flow × Frame)) (limit step : Float) :
    Nat → Float → Frame → Run (Flow × Frame)
  | 0, _, _ => throw .exhausted
  | rounds + 1, x, frame => do
    if floatGoesOn x limit step then
      let frame ← declareLocal slot (.float x) frame
      afterRound (floatLoop slot body limit step rounds (x + step)) (← body frame)
    else return (.normal, frame)

/-- Run a body over a range. -/
def rangeLoop (slot : Nat) (body : Frame → Run (Flow × Frame)) (rounds : Nat) (range : Range)
    (frame : Frame) : Run (Flow × Frame) :=
  match range with
  | .int start limit step => do
    if step = 0 then Run.raise .zeroStep
    else
      match ← Run.ofExcept (intLimit limit step) with
      | none => return (.normal, frame)
      | some bound =>
        intLoop slot body step.toInt (rangeLength start.toInt bound.toInt step.toInt) start.toInt
          frame
  | .float start limit step =>
    if Binary64.order step 0.0 = some .eq then Run.raise .zeroStep
    else floatLoop slot body limit step rounds start frame

/-- Run the code of the operands of a numeric loop. -/
def evalRange (caller : Caller) (frame : Frame) : RangeCode → Run Range
  | .int start limit step => do
    let s ← eval caller frame start
    let l ← eval caller frame limit
    let d ← eval caller frame step
    return .int s l d
  | .float start limit step => do
    let s ← eval caller frame start
    let l ← eval caller frame limit
    let d ← eval caller frame step
    return .float s l d
  | .dynamic start limit step => do
    let s ← eval caller frame start
    let l ← eval caller frame limit
    let d ← eval caller frame step
    Run.ofExcept (Range.ofValues s l d)

mutual

/-- Run the code of a statement.  Loops that need not end run at most `rounds` rounds. -/
def exec (caller : Caller) (rounds : Nat) : Step → Frame → Run (Flow × Frame)
  | .declare slot value, frame => do
    let v ← eval caller frame value
    return (.normal, ← declareLocal slot v frame)
  | .assign slot value, frame => do
    let v ← eval caller frame value
    return (.normal, ← writeLocal slot v frame)
  | .setUpvalue index value, frame => do
    let v ← eval caller frame value
    let cell ← Run.ofExcept (frame.upvalue index)
    Run.setHeap ((← Run.heap).setCell cell v)
    return (.normal, frame)
  | .setGlobal name value, frame => do
    let v ← eval caller frame value
    modify fun m => m.modifyEngine frame.engine fun e => e.setGlobal name v
    return (.normal, frame)
  | .setField f target value, frame => do
    let t ← eval caller frame target
    let v ← eval caller frame value
    Run.setHeap (← Run.ofExcept (storeField (← Run.heap) f t v))
    return (.normal, frame)
  | .setIndex target key value, frame => do
    let t ← eval caller frame target
    let k ← eval caller frame key
    let v ← eval caller frame value
    Run.setHeap (← Run.ofExcept (storeIndex (← Run.heap) t k v))
    return (.normal, frame)
  | .discard value, frame => do
    let _ ← eval caller frame value
    return (.normal, frame)
  | .call call, frame => do
    let _ ← evalCall caller frame call
    return (.normal, frame)
  | .branch cond thenBlock elseBlock, frame => do
    let b : Bool ← eval caller frame cond
    if b then execBlock caller rounds thenBlock frame
    else execBlock caller rounds elseBlock frame
  | .whileLoop cond body, frame =>
    whileLoop (fun f => eval caller f cond) (fun f => execBlock caller rounds body f) rounds frame
  | .forLoop slot range body, frame => do
    let r ← evalRange caller frame range
    rangeLoop slot (fun f => execBlock caller rounds body f) rounds r frame
  | .ret values, frame => do
    return (.ret (← evalAll caller frame values), frame)
  | .retCall call, frame => do
    return (.ret (← evalCall caller frame call), frame)
  | .breakLoop, frame => pure (.leave, frame)

/-- Run statements in order until one leaves the block. -/
def execBlock (caller : Caller) (rounds : Nat) : List Step → Frame → Run (Flow × Frame)
  | [], frame => pure (.normal, frame)
  | s :: rest, frame => do
    let (flow, frame) ← exec caller rounds s frame
    match flow with
    | .normal => execBlock caller rounds rest frame
    | flow => return (flow, frame)

end
end AdaptiveScript
