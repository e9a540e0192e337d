import AdaptiveScript.Call
import AdaptiveScript.Proofs.Machine.Compilation

/-!
# Plain execution

This is what programs mean, without types.  An interpreter walks over expressions and
statements: operators are the dynamic ones, fields are read and written by key, all tables
are plain maps, and calls look at the callee and run the body of its prototype.  There is
no inference, no specialization, no shape, no layout and no call site.

Specialized code is measured against it, so it is kept as simple as it can be.  Runs have
the same bound on the depth of calls and on the rounds of loops as everywhere else.  The
interpreter does not know the functions of the host; a run that calls one has no outcome
(`Plain.unknown`).
-/

namespace AdaptiveScript

/-- What programs see of everything there is. -/
structure World where
  /-- The program. -/
  program : Program
  /-- The shared objects. -/
  heap : Heap
  /-- The engines. -/
  realms : Array Realm

/-- Start with nothing set. -/
def Realm.fresh : Realm :=
  ⟨fun _ => .nil, true⟩

/-- Set a global variable. -/
def Realm.setGlobal (realm : Realm) (name : String) (v : Value) : Realm :=
  { realm with global := fun other => if other = name then v else realm.global other }

/-- An engine by number. -/
def World.realm (w : World) (id : EngineId) : Realm :=
  w.realms.getD id .fresh

/-- Computations of the interpreter. -/
abbrev Plain := ExceptT Stop (StateT World Option)

namespace Plain

variable {α : Type}

/-- No outcome: the host was called. -/
def unknown : Plain α :=
  ExceptT.mk fun _ => none

/-- Stop with an error. -/
def raise (e : RuntimeError) : Plain α :=
  throw (.error e)

/-- Go on with a result or stop with its error. -/
def ofExcept : Except RuntimeError α → Plain α
  | .ok a => pure a
  | .error e => raise e

/-- The shared objects. -/
def heap : Plain Heap := do
  return (← get).heap

/-- Change the shared objects. -/
def setHeap (heap : Heap) : Plain Unit :=
  modify fun w => { w with heap }

/-- Make a table. -/
def newTable (t : Table) : Plain Value := do
  let (ref, heap) := (← heap).addTable t
  setHeap heap
  return .table ref

/-- How calls are answered: engine, callee, arguments. -/
abbrev Caller := EngineId → Value → List Value → Plain (List Value)

/-! ## Expressions -/

mutual

/-- The value of an expression. -/
def expr (caller : Caller) (frame : Frame) : Expr → Plain Value
  | .literal l => pure l.value
  | .slot i => do return frame.read (← heap) i
  | .upvalue i => do
    let cell ← ofExcept (frame.upvalue i)
    return (← heap).cell cell
  | .global name => do return ((← get).realm frame.engine).global name
  | .binary op left right => do
    let a ← expr caller frame left
    let b ← expr caller frame right
    ofExcept (AdaptiveScript.binary op a b)
  | .logical op left right => do
    let a ← expr caller frame left
    match op with
    | .and => if a.isTruthy then expr caller frame right else pure a
    | .or => if a.isTruthy then pure a else expr caller frame right
  | .unary op operand => do
    let a ← expr caller frame operand
    ofExcept (AdaptiveScript.unary (← heap).border op a)
  | .index target key => do
    let t ← expr caller frame target
    let k ← expr caller frame key
    ofExcept (indexValue (← heap) t k)
  | .call callee args => do
    let f ← expr caller frame callee
    let vs ← exprs caller frame args
    return (← caller frame.engine f vs).headD .nil
  | .function proto captures => do
    let cells ← ofExcept (captures.mapM frame.capture)
    let (ref, heap) := (← heap).addFunction proto.name (.closure ⟨proto, cells, frame.engine⟩)
    setHeap heap
    return .function ref
  | .table _ entries => do newTable (← fill caller frame entries 1 .empty)

/-- The values of some expressions, from left to right. -/
def exprs (caller : Caller) (frame : Frame) : List Expr → Plain (List Value)
  | [] => pure []
  | e :: es => do
    let v ← expr caller frame e
    let vs ← exprs caller frame es
    return v :: vs

/-- Fill a table with the entries of a constructor; `next` is the key of the next positional
entry. -/
def fill (caller : Caller) (frame : Frame) : List Entry → Int64 → Table → Plain Table
  | [], _, t => pure t
  | .named name value :: rest, next, t => do
    let v ← expr caller frame value
    fill caller frame rest next (t.set (.str name) v)
  | .keyed key value :: rest, next, t => do
    let k ← expr caller frame key
    let v ← expr caller frame value
    fill caller frame rest next (t.set (← ofExcept (Key.ofValue k)) v)
  | .positional value :: rest, next, t => do
    let v ← expr caller frame value
    fill caller frame rest (next + 1) (t.set (.int next) v)

end

/-! ## Loops -/

/-- Start a new variable in a slot of a frame. -/
def declare (slot : Nat) (v : Value) (frame : Frame) : Plain Frame := do
  let (frame, heap) := frame.declare (← heap) slot v
  setHeap heap
  return frame

/-- Assign to a slot of a frame. -/
def assign (slot : Nat) (v : Value) (frame : Frame) : Plain Frame := do
  let (frame, heap) := frame.write (← heap) slot v
  setHeap heap
  return frame

/-- Go on after one round of a loop, unless the round left the loop. -/
def afterRound (again : Frame → Plain (Flow × Frame)) : Flow × Frame → Plain (Flow × Frame)
  | (.normal, frame) => again frame
  | (.leave, frame) => pure (.normal, frame)
  | (.ret values, frame) => pure (.ret values, frame)

/-- Run a body as long as a condition holds. -/
def whileLoop (cond : Frame → Plain Value) (body : Frame → Plain (Flow × Frame)) :
    Nat → Frame → Plain (Flow × Frame)
  | 0, _ => throw .exhausted
  | rounds + 1, frame => do
    if (← cond frame).isTruthy then
      afterRound (whileLoop cond body rounds) (← body frame)
    else return (.normal, frame)

/-- Run a body for `count` integers from `i` on, `step` apart. -/
def intLoop (slot : Nat) (body : Frame → Plain (Flow × Frame)) (step : Int) :
    Nat → Int → Frame → Plain (Flow × Frame)
  | 0, _, frame => pure (.normal, frame)
  | count + 1, i, frame => do
    let frame ← declare slot (.int (Int64.ofInt i)) frame
    afterRound (intLoop slot body step count (i + step)) (← body frame)

/-- Run a body for the floats from `x` to `limit`, `step` apart. -/
def floatLoop (slot : Nat) (body : Frame → Plain (Flow × Frame)) (limit step : Float) :
    Nat → Float → Frame → Plain (Flow × Frame)
  | 0, _, _ => throw .exhausted
  | rounds + 1, x, frame => do
    if floatGoesOn x limit step then
      let frame ← declare slot (.float x) frame
      afterRound (floatLoop slot body limit step rounds (x + step)) (← body frame)
    else return (.normal, frame)

/-- Run a body over a range. -/
def rangeLoop (slot : Nat) (body : Frame → Plain (Flow × Frame)) (rounds : Nat) (range : Range)
    (frame : Frame) : Plain (Flow × Frame) :=
  match range with
  | .int start limit step => do
    if step = 0 then raise .zeroStep
    else
      match ← ofExcept (intLimit limit step) with
      | none => return (.normal, frame)
      | some bound =>
        intLoop slot body step.toInt (rangeLength start.toInt bound.toInt step.toInt) start.toInt
          frame
  | .float start limit step =>
    if Binary64.order step 0.0 = some .eq then raise .zeroStep
    else floatLoop slot body limit step rounds start frame

/-! ## Statements -/

/-- The values that a return statement returns.  A call that stands alone passes on all its
results. -/
def returned (caller : Caller) (frame : Frame) : List Expr → Plain (List Value)
  | [.call callee args] => do
    let f ← expr caller frame callee
    let vs ← exprs caller frame args
    caller frame.engine f vs
  | values => exprs caller frame values

/-- The value of an expression that may be absent. -/
def optional (caller : Caller) (frame : Frame) (default : Value) : Option Expr → Plain Value
  | some e => expr caller frame e
  | none => pure default

mutual

/-- Run a statement. -/
def stmt (caller : Caller) (rounds : Nat) : Stmt → Frame → Plain (Flow × Frame)
  | .declare slot value, frame => do
    let v ← optional caller frame .nil value
    return (.normal, ← declare slot v frame)
  | .assign slot value, frame => do
    let v ← expr caller frame value
    return (.normal, ← assign slot v frame)
  | .setUpvalue index value, frame => do
    let v ← expr caller frame value
    let cell ← ofExcept (frame.upvalue index)
    setHeap ((← heap).setCell cell v)
    return (.normal, frame)
  | .setGlobal name value, frame => do
    let v ← expr caller frame value
    modify fun w => { w with
      realms := w.realms.modify frame.engine fun realm => realm.setGlobal name v }
    return (.normal, frame)
  | .setIndex target key value, frame => do
    let t ← expr caller frame target
    let k ← expr caller frame key
    let v ← expr caller frame value
    setHeap (← ofExcept (storeIndex (← heap) t k v))
    return (.normal, frame)
  | .expr e, frame => do
    let _ ← expr caller frame e
    return (.normal, frame)
  | .branch cond thenBlock elseBlock, frame => do
    if (← expr caller frame cond).isTruthy then block caller rounds thenBlock frame
    else block caller rounds elseBlock frame
  | .whileLoop cond body, frame =>
    whileLoop (fun f => expr caller f cond) (fun f => block caller rounds body f) rounds frame
  | .forLoop slot start limit step body, frame => do
    let s ← expr caller frame start
    let l ← expr caller frame limit
    let d ← optional caller frame (.int 1) step
    let range ← ofExcept (Range.ofValues s l d)
    rangeLoop slot (fun f => block caller rounds body f) rounds range frame
  | .ret values, frame => do
    return (.ret (← returned caller frame values), frame)
  | .breakLoop, frame => pure (.leave, frame)

/-- Run statements in order until one leaves the block. -/
def block (caller : Caller) (rounds : Nat) : List Stmt → Frame → Plain (Flow × Frame)
  | [], frame => pure (.normal, frame)
  | s :: rest, frame => do
    let (flow, frame) ← stmt caller rounds s frame
    match flow with
    | .normal => block caller rounds rest frame
    | flow => return (flow, frame)

end

/-! ## Calls -/

/-- The initial values of the locals of a function, and whether each is captured. -/
def initialLocals (proto : Prototype) (args : List Value) : List (Value × Bool) :=
  proto.locals.toList.zipIdx.map fun (decl, slot) =>
    (if slot < proto.paramCount then args[slot]?.getD .nil else .nil, decl.captured)

/-- Run the body of a function. -/
def enter (caller : Caller) (rounds : Nat) (engine : EngineId) (proto : Prototype)
    (cells : List CellId) (args : List Value) : Plain (List Value) := do
  let (locals, heap) := Frame.openLocals (← heap) (initialLocals proto args)
  setHeap heap
  let (flow, _) ← block caller rounds proto.body ⟨engine, locals.toArray, cells, #[], []⟩
  return flow.results

/-- Call a closure. -/
def callClosure (caller : Caller) (rounds : Nat) (engine : EngineId) (c : Closure)
    (args : List Value) : Plain (List Value) := do
  match (← get).program.prototype? c.proto with
  | some proto => enter caller rounds engine proto c.cells args
  | none => raise (.compilation (.other c.proto.name))

/-- Call a value in an engine. -/
def callValue (caller : Caller) (rounds : Nat) (engine : EngineId) (callee : Value)
    (args : List Value) : Plain (List Value) := do
  match callee with
  | .function ref =>
    match (← heap).function? ref with
    | some (.closure c) => callClosure caller rounds engine c args
    | some _ => unknown
    | none => raise (.notCallable .function)
  | v => raise (.notCallable v.kind)

/-- Call a function in the engine that it belongs to. -/
def callDirect (caller : Caller) (rounds : Nat) (ref : FunctionRef) (args : List Value) :
    Plain (List Value) := do
  match (← heap).function? ref with
  | some (.closure c) =>
    if ((← get).realm c.engine).alive then callClosure caller rounds c.engine c args
    else raise (.engineDropped c.proto.name)
  | some _ => unknown
  | none => raise (.notCallable .function)

/-- Answer a request, given how the calls that arise on the way are answered. -/
def respond (caller : Caller) (rounds : Nat) : Request → Plain (List Value)
  | .engine engine callee args => callValue caller rounds engine callee args
  | .site engine _ callee args => callValue caller rounds engine callee args
  | .direct ref args => callDirect caller rounds ref args

/-- Answer a request within a bound on the depth of calls. -/
def answer : Nat → Request → Plain (List Value)
  | 0, _ => throw .exhausted
  | depth + 1, request =>
    respond (fun engine callee args => answer depth (.engine engine callee args)) depth request

end Plain
end AdaptiveScript
