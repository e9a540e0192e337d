import AdaptiveScript.Linking.Linker

/-!
# Answering calls

There are three ways to call: through an engine, generically through the function itself,
and through a call site.  `respond` answers a request, given how the requests that arise
on the way are answered; `answer` ties the knot with a bound on the depth of calls, which
also bounds the rounds of loops that need not end.

A routine checks its arguments and upvalues before its first statement.  If the check
fails, the attempt is rejected and nothing has run; a call site then links anew, and every
other caller sees the reason as an error.  Errors of the body are never taken for a
rejection.
-/

namespace AdaptiveScript

/-- The ways to call. -/
inductive Request where
  /-- Call any value through an engine. -/
  | engine (engine : EngineId) (callee : Value) (args : List Value)
  /-- Call a function generically; a closure runs in the engine it belongs to. -/
  | direct (function : FunctionRef) (args : List Value)
  /-- Call any value through a call site. -/
  | site (engine : EngineId) (site : SiteId) (callee : Value) (args : List Value)

/-- How requests are answered. -/
abbrev Responder := Request → Run (List Value)

/-- What an attempt to run a target comes to. -/
inductive Attempt where
  /-- The target turned its arguments down and nothing has run. -/
  | rejected (reason : RuntimeError)
  | finished (results : List Value)

namespace Attempt

/-- The results, a rejection being an error. -/
def results : Attempt → Run (List Value)
  | .rejected reason => Run.raise reason
  | .finished results => pure results

end Attempt

/-! ## Routines -/

namespace Specialization

/-- Check arguments against types; missing arguments are nil. -/
def checkArgs (shapes : Shapes) (heap : Heap) : List Ty → List Value → Except RuntimeError Unit
  | [], _ => .ok ()
  | type :: types, args => do
    type.check shapes heap (args.headD .nil)
    checkArgs shapes heap types args.tail

/-- Check the contents of cells against types. -/
def checkCells (shapes : Shapes) (heap : Heap) :
    List Ty → List CellId → Except RuntimeError Unit
  | type :: types, cell :: cells => do
    type.check shapes heap (heap.cell cell)
    checkCells shapes heap types cells
  | _, _ => .ok ()

/-- What a routine checks before its first statement. -/
def check (spec : Specialization) (shapes : Shapes) (heap : Heap) (cells : List CellId)
    (args : List Value) : Except RuntimeError Unit := do
  checkArgs shapes heap (spec.signature.args.take spec.paramCount) args
  if cells.length ≠ spec.signature.upvalues.length then
    throw (.upvalueMismatch spec.name spec.signature.upvalues.length cells.length)
  checkCells shapes heap spec.signature.upvalues cells

/-- The initial values of the locals: the arguments, then nil. -/
def initialLocals (spec : Specialization) (args : List Value) : List (Value × Bool) :=
  spec.captured.zipIdx.map fun (captured, slot) =>
    (if slot < spec.paramCount then args[slot]?.getD .nil else .nil, captured)

/-- The frame of a routine that is entered. -/
def frame (spec : Specialization) (engine : EngineId) (cells : List CellId) (args : List Value)
    (heap : Heap) : Frame × Heap :=
  let (locals, heap) := Frame.openLocals heap (spec.initialLocals args)
  (⟨engine, locals.toArray, cells, spec.constants, spec.locals⟩, heap)

/-- Run the body of a routine. -/
def run (again : Responder) (rounds : Nat) (engine : EngineId) (spec : Specialization)
    (cells : List CellId) (args : List Value) : Run (List Value) := do
  let (frame, heap) := spec.frame engine cells args (← Run.heap)
  Run.setHeap heap
  let caller : Caller := fun engine site callee args => again (.site engine site callee args)
  let (flow, _) ← execBlock caller rounds spec.body frame
  return spec.visibleResults flow.results

/-- Enter a routine. -/
def enter (again : Responder) (rounds : Nat) (engine : EngineId) (spec : Specialization)
    (cells : List CellId) (args : List Value) : Run Attempt := do
  let m ← get
  match spec.check m.shapes m.heap cells args with
  | .error reason => return .rejected reason
  | .ok _ => return .finished (← spec.run again rounds engine cells args)

end Specialization

/-! ## Functions -/

/-- Run a closure in an engine: specialize it for the arguments at hand. -/
def runClosure (again : Responder) (rounds : Nat) (engine : EngineId) (closure : Closure)
    (args : List Value) : Run (List Value) := do
  let m ← get
  let upvalues := ((m.program.prototype? closure.proto).map fun proto =>
    Linking.identityUpvalueTypes (m.engine engine).registry m.heap proto closure.cells).getD []
  let spec ← Linking.specialize engine closure.proto (args.map (m.typeOf engine)) upvalues false
  (← spec.enter again rounds engine closure.cells args).results

/-- Call any value generically. -/
def callValue (again : Responder) (callee : Value) (args : List Value) : Run (List Value) :=
  match callee with
  | .function ref => again (.direct ref args)
  | v => Run.raise (.notCallable v.kind)

/-- Read a key of a value. -/
def Run.readKey (target key : Value) : Run Value := do
  Run.ofExcept (indexValue (← Run.heap) target key)

/-- Write a key of a value. -/
def Run.writeKey (target key v : Value) : Run Unit := do
  Run.setHeap (← Run.ofExcept (storeIndex (← Run.heap) target key v))

/-- Do what code of the host asks for, step by step. -/
def perform (again : Responder) : HostCode → Run (List Value)
  | .done results => pure results
  | .raise fault => Run.raise (.raised fault)
  | .call callee args next handles handler => do
    match ← Run.outcome (callValue again callee args) with
    | .ok results => perform again (next results)
    | .error e => if handles e then perform again (handler e) else Run.raise e
  | .makeTable next => do
    perform again (next (← Run.newTable .empty))
  | .read target key next => do
    perform again (next (← Run.readKey target key))
  | .write target key v next => do
    Run.writeKey target key v
    perform again next
  | .global engine name next => do
    perform again (next (((← get).engine engine).global name))
  | .setGlobal engine name v next => do
    modify fun m => m.modifyEngine engine fun e => e.setGlobal name v
    perform again next

/-- Run one overload of a host function. -/
def runOverload (again : Responder) (ref : FunctionRef) (overloads : List Overload)
    (index : Nat) (args : List Value) : Run (List Value) :=
  match overloads[index]? with
  | some overload => perform again (overload.action args)
  | none => Run.raise (.missingOverload ref.name index)

/-- Call a host function: the first overload that takes the arguments runs. -/
def runHost (again : Responder) (ref : FunctionRef) (overloads : List Overload)
    (args : List Value) : Run (List Value) := do
  let m ← get
  match Overload.selectValues? m.shapes m.heap overloads args with
  | some index => runOverload again ref overloads index args
  | none => Run.raise (.noOverload ref.name (args.map (Ty.ofValue .empty m.heap)))

/-- Call a function generically. -/
def runDirect (again : Responder) (rounds : Nat) (ref : FunctionRef) (args : List Value) :
    Run (List Value) := do
  let m ← get
  match m.heap.function? ref with
  | some (.closure closure) =>
    if (m.engine closure.engine).alive then runClosure again rounds closure.engine closure args
    else Run.raise (.engineDropped closure.proto.name)
  | some (.host overloads) => runHost again ref overloads args
  | some (.foreign action) => perform again (action args)
  | none => Run.raise (.notCallable .function)

/-- Call any value through an engine; closures run in that engine. -/
def runEngine (again : Responder) (rounds : Nat) (engine : EngineId) (callee : Value)
    (args : List Value) : Run (List Value) := do
  match callee with
  | .function ref =>
    match (← Run.heap).closureOf? ref with
    | some closure => runClosure again rounds engine closure args
    | none => runDirect again rounds ref args
  | v => Run.raise (.notCallable v.kind)

/-! ## Call sites -/

namespace Linking

/-- Try to run the target of a link for a callee. -/
def Target.run (again : Responder) (rounds : Nat) (engine : EngineId) (callee : Value)
    (args : List Value) : Target → Run Attempt
  | .instance spec cells => spec.enter again rounds engine cells args
  | .prototype spec => do
    match (← Run.heap).closure? callee with
    | some closure => spec.enter again rounds engine closure.cells args
    | none => return .rejected .nonClosureCallee
  | .host ref overload => do
    let m ← get
    match m.heap.overloads? ref with
    | none => Run.raise .hostTargetLost
    | some overloads =>
      if Overload.matchesAt m.shapes m.heap overloads overload args then
        return .finished (← runOverload again ref overloads overload args)
      else return .rejected (.overloadMismatch overload ref.name)
  | .foreign ref => do
    return .finished (← runDirect again rounds ref args)

/-- Link a site for a call that was made in a given state, and run what it is linked to. -/
def relink (again : Responder) (rounds : Nat) (before : Ghost State) (engine : EngineId)
    (id : SiteId) (callee : Value) (args : List Value) : Run (List Value) := do
  let outcome ← enter before engine id callee args
  (← outcome.target.run again rounds engine callee args).results

/-- Get to what a site runs: by the link in place if its guard lets the callee pass and its
target takes the arguments, and otherwise by a new link. -/
def proceed (again : Responder) (rounds : Nat) (engine : EngineId) (id : SiteId) (callee : Value)
    (args : List Value) : Run (List Value) := do
  let m ← get
  match (m.sites.get id).link with
  | none => relink again rounds (.of m.toState) engine id callee args
  | some link =>
    if link.guard.holds m.heap callee then
      match ← link.target.run again rounds engine callee args with
      | .finished results => return results
      | .rejected reason =>
        Run.count engine Stats.addDeoptimization
        Run.note (.rejected id link.target.name reason)
        relink again rounds (.of m.toState) engine id callee args
    else
      Run.count engine Stats.addGuardFailure
      Run.note (.guardFailed id callee)
      relink again rounds (.of m.toState) engine id callee args

/-- Call a value through a site. -/
def invoke (again : Responder) (rounds : Nat) (engine : EngineId) (id : SiteId) (callee : Value)
    (args : List Value) : Run (List Value) := do
  modify fun m => m.recordCall engine id callee args
  proceed again rounds engine id callee args

end Linking

/-! ## Tying the knot -/

/-- Answer a request, given how the requests that arise on the way are answered. -/
def respond (again : Responder) (rounds : Nat) : Responder
  | .engine engine callee args => runEngine again rounds engine callee args
  | .direct ref args => runDirect again rounds ref args
  | .site engine id callee args => Linking.invoke again rounds engine id callee args

/-- Answer a request within a bound on the depth of calls. -/
def answer : Nat → Responder
  | 0, _ => throw .exhausted
  | depth + 1, request => respond (answer depth) depth request

end AdaptiveScript
