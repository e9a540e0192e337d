import AdaptiveScript.Knowledge

/-!
# Type inference

Before code is emitted for a function, its body is walked until the types of its locals
stop changing.  A local is unassigned, fixed to the type of its first assignment, or in
conflict once it was assigned another type; reads see nil, that type, or nothing.  Two
table constructors assigned to one local merge their shapes instead, as long as neither
has been compiled.  The walk does not follow control flow, and if the types still change
when the passes run out, every local is taken to be in conflict.

A captured local may be written by a closure at any time, so its type is never known.

The results of a call are known when the type of the callee names its prototype.  The
return types of a prototype are found under the weakest assumptions (arguments of any
type) and once only.  A prototype refers to earlier prototypes only, so finding its
return types needs those of earlier ones at most; `returnTypesBelow` goes down along that
order.
-/

namespace AdaptiveScript

/-- What is known about a local. -/
inductive VarState where
  | unassigned
  | fixed (type : Ty)
  | conflicted
  deriving DecidableEq, Repr

namespace VarState

/-- The type that a read sees.  A local holds nil until it is assigned. -/
def read : VarState → Ty
  | .unassigned => .nil
  | .fixed type => type
  | .conflicted => .unknown

end VarState

/-- The analysis of one function under one signature. -/
structure Inference where
  /-- The function. -/
  proto : Prototype
  /-- What is known about its locals. -/
  vars : Array VarState
  /-- The types of its upvalues. -/
  upvalueTypes : List Ty
  /-- The types returned so far; nothing if no return was met. -/
  returns : Option (List Ty)
  /-- How many passes to make at most. -/
  maxIterations : Nat
  /-- Whether a pass changed nothing. -/
  converged : Bool

namespace Inference

/-- The analysis before its first pass: parameters are fixed to the types of the arguments,
missing arguments being nil.  There is at least one pass. -/
def ofTypes (proto : Prototype) (args upvalues : List Ty) (maxIterations : Nat) : Inference :=
  { proto
    vars := ((List.range proto.localCount).map fun slot =>
      if slot < proto.paramCount then VarState.fixed (args[slot]?.getD .nil)
      else .unassigned).toArray
    upvalueTypes := upvalues
    returns := none
    maxIterations := max maxIterations 1
    converged := false }

/-- The type that reads of a local see. -/
def varType (ctx : Inference) (slot : Nat) : Ty :=
  if ctx.proto.isCaptured slot then .unknown
  else (ctx.vars[slot]?.map VarState.read).getD .unknown

/-- The type of an upvalue. -/
def upvalueType (ctx : Inference) (index : Nat) : Ty :=
  ctx.upvalueTypes[index]?.getD .unknown

/-- The types returned by all returns met so far. -/
def returnTypes (ctx : Inference) : List Ty :=
  ctx.returns.getD []

/-- The state of a local after an assignment. -/
def assigned (type : Ty) : VarState → Learn VarState
  | .unassigned => pure (.fixed type)
  | .conflicted => pure .conflicted
  | .fixed current =>
    if current = type then pure (.fixed current)
    else
      match current.shape?, type.shape? with
      | some a, some b => do
        match ← Learn.mergeShapes a b with
        | some merged => return .fixed (← Learn.tableType merged)
        | none => return .conflicted
      | _, _ => pure .conflicted

/-- Assign a type to a local.  Slots that the function does not have are ignored. -/
def assign (ctx : Inference) (slot : Nat) (type : Ty) : Learn Inference := do
  match ctx.vars[slot]? with
  | none => return ctx
  | some var =>
    let next ← assigned type var
    return { ctx with vars := ctx.vars.setIfInBounds slot next }

/-- Join two lists of types place by place; what is missing is nil. -/
def joinReturns : List Ty → List Ty → List Ty
  | [], ts => ts.map (Ty.join .nil)
  | ts, [] => ts.map fun t => t.join .nil
  | a :: as, b :: bs => a.join b :: joinReturns as bs

/-- Record the types of one return. -/
def recordReturn (ctx : Inference) (types : List Ty) : Inference :=
  { ctx with returns := some (match ctx.returns with
      | none => types
      | some existing => joinReturns existing types) }

/-- How the return types of a prototype are found. -/
abbrev ReturnsOf := PrototypeRef → Learn (List Ty)

/-- The types that a call through a value of the given type returns, if its prototype is
known. -/
def callTypes (returnsOf : ReturnsOf) (callee : Ty) : Learn (Option (List Ty)) :=
  match callee.prototype? with
  | some proto => do return some (← returnsOf proto)
  | none => pure none

/-- The type of the first of some results; without results it is nil. -/
def firstType : Option (List Ty) → Ty
  | some types => types.headD .nil
  | none => .unknown

/-- The type of a call as an expression. -/
def callType (returnsOf : ReturnsOf) (callee : Ty) : Learn Ty := do
  return firstType (← callTypes returnsOf callee)

mutual

/-- The type of an expression under what is known about the locals.  Table constructors
record their keys in their shape on the way. -/
def infer (returnsOf : ReturnsOf) (ctx : Inference) : Expr → Learn Ty
  | .literal l => pure l.type
  | .slot index => pure (ctx.varType index)
  | .upvalue index => pure (ctx.upvalueType index)
  | .global _ => pure .unknown
  | .binary op left right => do
    let l ← infer returnsOf ctx left
    let r ← infer returnsOf ctx right
    return Ty.binaryType op l r
  | .logical _ left right => do
    let l ← infer returnsOf ctx left
    let r ← infer returnsOf ctx right
    return l.join r
  | .unary op operand => do
    return Ty.unaryType op (← infer returnsOf ctx operand)
  | .index target key => do
    let _ ← infer returnsOf ctx target
    let _ ← infer returnsOf ctx key
    -- Keyed writes can put any value into any slot.
    return .unknown
  | .call callee args => do
    let calleeType ← infer returnsOf ctx callee
    let _ ← inferAll returnsOf ctx args
    callType returnsOf calleeType
  | .function proto _ => pure (.function proto)
  | .table shape entries => do
    inferEntries returnsOf ctx shape entries
    Learn.tableType shape

/-- The types of some expressions, from left to right. -/
def inferAll (returnsOf : ReturnsOf) (ctx : Inference) : List Expr → Learn (List Ty)
  | [] => pure []
  | e :: es => do
    let t ← infer returnsOf ctx e
    let ts ← inferAll returnsOf ctx es
    return t :: ts

/-- Record the entries of a table constructor in its shape. -/
def inferEntries (returnsOf : ReturnsOf) (ctx : Inference) (shape : ShapeId) :
    List Entry → Learn Unit
  | [] => pure ()
  | .named name value :: rest => do
    Learn.amend shape name (← infer returnsOf ctx value)
    inferEntries returnsOf ctx shape rest
  | .keyed key value :: rest => do
    match key.constantKey? with
    | some name => Learn.amend shape name (← infer returnsOf ctx value)
    | none =>
      let _ ← infer returnsOf ctx key
      let _ ← infer returnsOf ctx value
      Learn.amendUnknown shape
    inferEntries returnsOf ctx shape rest
  | .positional value :: rest => do
    let _ ← infer returnsOf ctx value
    Learn.amendUnknown shape
    inferEntries returnsOf ctx shape rest

end

/-- The types that `return e` returns when it stands alone: a call passes on all its
results. -/
def inferForwarded (returnsOf : ReturnsOf) (ctx : Inference) : Expr → Learn (List Ty)
  | .call callee args => do
    let calleeType ← infer returnsOf ctx callee
    let _ ← inferAll returnsOf ctx args
    return (← callTypes returnsOf calleeType).getD [.unknown]
  | e => do return [← infer returnsOf ctx e]

/-- The types that a return statement returns. -/
def inferReturn (returnsOf : ReturnsOf) (ctx : Inference) : List Expr → Learn (List Ty)
  | [e] => inferForwarded returnsOf ctx e
  | es => inferAll returnsOf ctx es

/-- The type of the step of a numeric loop, which goes by one if it has none. -/
def inferStep (returnsOf : ReturnsOf) (ctx : Inference) : Option Expr → Learn Ty
  | some e => infer returnsOf ctx e
  | none => pure .integer

mutual

/-- Walk one statement. -/
def walk (returnsOf : ReturnsOf) : Stmt → Inference → Learn Inference
  | .declare slot value, ctx => do
    match value with
    | some e => ctx.assign slot (← infer returnsOf ctx e)
    | none => ctx.assign slot .nil
  | .assign slot value, ctx => do
    ctx.assign slot (← infer returnsOf ctx value)
  | .setUpvalue _ value, ctx => do
    let _ ← infer returnsOf ctx value
    return ctx
  | .setGlobal _ value, ctx => do
    let _ ← infer returnsOf ctx value
    return ctx
  | .setIndex target key value, ctx => do
    let _ ← infer returnsOf ctx target
    let _ ← infer returnsOf ctx key
    let _ ← infer returnsOf ctx value
    return ctx
  | .expr e, ctx => do
    let _ ← infer returnsOf ctx e
    return ctx
  | .branch cond thenBlock elseBlock, ctx => do
    let _ ← infer returnsOf ctx cond
    let ctx ← walkBlock returnsOf thenBlock ctx
    walkBlock returnsOf elseBlock ctx
  | .whileLoop cond body, ctx => do
    let _ ← infer returnsOf ctx cond
    walkBlock returnsOf body ctx
  | .forLoop slot start limit step body, ctx => do
    let startType ← infer returnsOf ctx start
    let limitType ← infer returnsOf ctx limit
    let stepType ← inferStep returnsOf ctx step
    let ctx ← ctx.assign slot (Ty.loopType startType limitType stepType)
    walkBlock returnsOf body ctx
  | .ret values, ctx => do
    return ctx.recordReturn (← inferReturn returnsOf ctx values)
  | .breakLoop, ctx => pure ctx

/-- Walk the statements of a block in order. -/
def walkBlock (returnsOf : ReturnsOf) : List Stmt → Inference → Learn Inference
  | [], ctx => pure ctx
  | s :: rest, ctx => do
    let ctx ← walk returnsOf s ctx
    walkBlock returnsOf rest ctx

end

/-- Walk a body once.  A body that can be left at its end returns nothing there. -/
def walkBody (returnsOf : ReturnsOf) (body : List Stmt) (ctx : Inference) : Learn Inference := do
  let ctx ← walkBlock returnsOf body { ctx with returns := none }
  return if Stmt.blockFallsThrough body then ctx.recordReturn [] else ctx

/-- Walk a body until a pass changes no local, `remaining` times at most; then take every
local to be in conflict and walk once more. -/
def analyzeFrom (returnsOf : ReturnsOf) (body : List Stmt) :
    Nat → Nat → Inference → Learn Inference
  | 0, _, ctx => do
    Learn.note (.widened ctx.proto.ref.name ctx.maxIterations)
    walkBody returnsOf body { ctx with vars := ctx.vars.map fun _ => .conflicted }
  | remaining + 1, done, ctx => do
    let next ← walkBody returnsOf body ctx
    if next.vars = ctx.vars then
      Learn.note (.converged ctx.proto.ref.name (done + 1))
      return { next with converged := true }
    else analyzeFrom returnsOf body remaining (done + 1) next

/-- Analyse a body to a fixed point. -/
def analyze (returnsOf : ReturnsOf) (body : List Stmt) (ctx : Inference) : Learn Inference :=
  analyzeFrom returnsOf body ctx.maxIterations 0 ctx

/-! ## Return types of prototypes -/

/-- The return types of one prototype, given how to find those of the prototypes it refers
to.  They are found once and then remembered. -/
def findReturns (returnsOf : ReturnsOf) (maxIterations : Nat) (proto : Prototype) :
    Learn (List Ty) := do
  match (← get).returns.lookup proto.ref.id with
  | some types => return types
  | none =>
    let start := ofTypes proto (List.replicate proto.paramCount .unknown)
      proto.staticUpvalueTypes maxIterations
    let ctx ← analyze returnsOf proto.body start
    modify fun k => { k with returns := (proto.ref.id, ctx.returnTypes) :: k.returns }
    return ctx.returnTypes

/-- The return types of the prototypes numbered up to `bound`; nothing is known about the
results of others. -/
def returnTypesBelow (program : Program) (maxIterations : Nat) : Nat → ReturnsOf
  | 0, _ => pure [.unknown]
  | bound + 1, ref =>
    if ref.id = bound + 1 then
      match program.prototype? ref with
      | some proto => findReturns (returnTypesBelow program maxIterations bound) maxIterations proto
      | none => pure [.unknown]
    else returnTypesBelow program maxIterations bound ref

/-- The return types of any prototype of a program. -/
def returnTypesOf (program : Program) (maxIterations : Nat) : ReturnsOf :=
  returnTypesBelow program maxIterations program.size

end Inference
end AdaptiveScript
