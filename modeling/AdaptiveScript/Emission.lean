import AdaptiveScript.Inference
import AdaptiveScript.Linking.Site

/-!
# Emission of code

The body of a prototype is turned into code under the types that inference found.  Every
node is emitted after its parts, from left to right, and the first node that cannot be
emitted decides the error.

Table constructors and accesses with a constant key ask for the layout of a shape, which
freezes the shape and registers it with the engine.  Every call makes a call site.  Both
effects stay when a later node fails.
-/

namespace AdaptiveScript

/-- What emission changes. -/
structure Emitter where
  /-- What analysis has learnt. -/
  knowledge : Knowledge
  /-- The shapes that the engine knows. -/
  registry : Registry
  /-- All call sites. -/
  sites : Linking.Sites
  /-- The constants of the code. -/
  constants : Array Value
  /-- The call sites of the code. -/
  owned : Array SiteId

/-- Computations that emit code. -/
abbrev Emit := ExceptT CompileError (StateM Emitter)

namespace Emit

/-- Learn while emitting. -/
def learn {α : Type} (m : Learn α) : Emit α :=
  modifyGet fun s =>
    let (a, knowledge) := m.run s.knowledge
    (a, { s with knowledge })

/-- The layout of a shape, which the engine knows from then on. -/
def layout (shape : ShapeId) : Emit Layout := do
  let layout ← learn (Learn.compileShape shape)
  modify fun s => { s with registry := s.registry.register s.knowledge.shapes shape }
  return layout

/-- Add a constant. -/
def constant (v : Value) : Emit Nat :=
  modifyGet fun s => (s.constants.size, { s with constants := s.constants.push v })

/-- Make a call site. -/
def site (static : List Ty) (truncate : Bool) : Emit SiteId :=
  modifyGet fun s =>
    let (id, sites) := s.sites.add (.fresh static truncate)
    (id, { s with sites, owned := s.owned.push id })

end Emit

/-- What the code of a body is emitted under. -/
structure Scope where
  /-- The program. -/
  program : Program
  /-- The function with the types found for it. -/
  types : Inference

namespace Scope

/-- The function. -/
def proto (scope : Scope) : Prototype :=
  scope.types.proto

/-- How return types are found. -/
def returnsOf (scope : Scope) : Inference.ReturnsOf :=
  Inference.returnTypesOf scope.program scope.types.maxIterations

/-- Write down that a node is emitted. -/
def announce (scope : Scope) (form : String) : Emit Unit :=
  Emit.learn (Learn.note (.emitting form scope.proto.ref.name))

/-- Fails unless the function has the local. -/
def checkSlot (scope : Scope) (slot : Nat) : Emit Unit :=
  if slot < scope.proto.localCount then pure ()
  else throw (.badLocal scope.proto.ref.name slot scope.proto.localCount)

/-- Fails unless the function has the upvalue. -/
def checkUpvalue (scope : Scope) (index : Nat) : Emit Unit :=
  if index < scope.proto.upvalues.size then pure ()
  else throw (.badUpvalue scope.proto.ref.name index scope.proto.upvalues.size)

/-- Fails unless the function has what a literal captures. -/
def checkCapture (scope : Scope) : Capture → Emit Unit
  | .slot index => scope.checkSlot index
  | .upvalue index => scope.checkUpvalue index

/-- How many upvalues a prototype declares. -/
def upvalueCount (scope : Scope) (ref : PrototypeRef) : Nat :=
  ((scope.program.prototype? ref).map fun proto => proto.upvalues.size).getD 0

end Scope

namespace Emit

/-- Code of a constant. -/
def literal (l : Literal) : Emit Emitted :=
  match l with
  | .nil => pure ⟨.nil, .value, .nil⟩
  | .bool b => pure ⟨.boolean, .bool, .bool b⟩
  | .int n => pure ⟨.integer, .int, .int n⟩
  | .float x => pure ⟨.float, .float, .float x⟩
  | .str s => do return ⟨.string, .value, .constant (← constant (.str s))⟩

/-- The slot of a constant key in the layout that a table type names, if there is one. -/
def field? (target : Ty) (key : Expr) : Emit (Option Field) :=
  match target.shape?, key.constantKey? with
  | some shape, some name => do
    let l ← layout shape
    return (l.slotOf? name).map fun slot => ⟨l.shape, slot, name⟩
  | _, _ => pure none

/-- Code of a call whose callee and arguments have been emitted. -/
def call (callee : Emitted) (args : List Emitted) (truncate : Bool) : Emit CallCode := do
  let id ← site (args.map Emitted.type) truncate
  return .mk id callee.boxed (args.map Emitted.boxed)

/-- Code of an entry with a constant text key.  A key that was found after its layout was
frozen has no slot. -/
def namedInit (l : Layout) (name : String) (value : Emitted) : Init :=
  match l.slotOf? name with
  | some slot => .slot slot value.boxed
  | none => .named name value.boxed

mutual

/-- Emit an expression. -/
def expr (scope : Scope) : Expr → Emit Emitted
  | .literal l => do
    scope.announce (Expr.literal l).form
    literal l
  | .slot index => do
    scope.announce (Expr.slot index).form
    scope.checkSlot index
    return Emitted.narrow (scope.types.varType index) (.slot index)
  | .upvalue index => do
    scope.announce (Expr.upvalue index).form
    scope.checkUpvalue index
    return Emitted.narrow (scope.types.upvalueType index) (.upvalue index)
  | .global name => do
    scope.announce (Expr.global name).form
    return ⟨.unknown, .value, .global name⟩
  | .binary op left right => do
    scope.announce (Expr.binary op left right).form
    let l ← expr scope left
    let r ← expr scope right
    return Emitted.binary op l r
  | .logical op left right => do
    scope.announce (Expr.logical op left right).form
    let l ← expr scope left
    let r ← expr scope right
    return Emitted.logical op l r
  | .unary op operand => do
    scope.announce (Expr.unary op operand).form
    return Emitted.unary op (← expr scope operand)
  | .index target key => do
    scope.announce (Expr.index target key).form
    let t ← expr scope target
    match ← field? t.type key with
    | some f => return ⟨.unknown, .value, .field f t.boxed⟩
    | none =>
      let k ← expr scope key
      return ⟨.unknown, .value, .index t.boxed k.boxed⟩
  | .call callee args => do
    scope.announce (Expr.call callee args).form
    let c ← expr scope callee
    let as ← exprs scope args
    let code ← call c as true
    let type ← learn (Inference.callType scope.returnsOf c.type)
    return Emitted.narrow type (.first code)
  | .function proto captures => do
    scope.announce (Expr.function proto captures).form
    if captures.length ≠ scope.upvalueCount proto then
      throw (.captureCount proto.name captures.length (scope.upvalueCount proto))
    captures.forM scope.checkCapture
    return ⟨.function proto, .value, .function proto captures⟩
  | .table shape entries => do
    scope.announce (Expr.table shape entries).form
    let l ← layout shape
    let inits ← inits scope l entries
    return ⟨← learn (Learn.tableType shape), .value, .table l inits⟩

/-- Emit expressions from left to right. -/
def exprs (scope : Scope) : List Expr → Emit (List Emitted)
  | [] => pure []
  | e :: es => do
    let c ← expr scope e
    let cs ← exprs scope es
    return c :: cs

/-- Emit the entries of a table constructor. -/
def inits (scope : Scope) (l : Layout) : List Entry → Emit (List Init)
  | [] => pure []
  | .named name value :: rest => do
    let v ← expr scope value
    let is ← inits scope l rest
    return namedInit l name v :: is
  | .keyed key value :: rest => do
    match key.constantKey? with
    | some name =>
      let v ← expr scope value
      let is ← inits scope l rest
      return namedInit l name v :: is
    | none =>
      let k ← expr scope key
      let v ← expr scope value
      let is ← inits scope l rest
      return .keyed k.boxed v.boxed :: is
  | .positional value :: rest => do
    let v ← expr scope value
    let is ← inits scope l rest
    return .positional v.boxed :: is

end

/-- Code of the operands of a numeric loop. -/
def range (start limit step : Emitted) : RangeCode :=
  match Ty.loopType start.type limit.type step.type with
  | .integer => .int start.toInt limit.boxed step.toInt
  | .float => .float start.toFloat limit.toFloat step.toFloat
  | _ => .dynamic start.boxed limit.boxed step.boxed

/-- Emit the step of a numeric loop, which goes by one if it has none. -/
def step (scope : Scope) : Option Expr → Emit Emitted
  | some e => expr scope e
  | none => pure ⟨.integer, .int, .int 1⟩

/-- Emit a return.  A call that stands alone passes on all its results. -/
def ret (scope : Scope) : List Expr → Emit Step
  | [.call callee args] => do
    let c ← expr scope callee
    let as ← exprs scope args
    let code ← call c as false
    let _ ← learn (Inference.callTypes scope.returnsOf c.type)
    return .retCall code
  | values => do
    let vs ← exprs scope values
    return .ret (vs.map Emitted.boxed)

/-- Emit an expression statement. -/
def discard (scope : Scope) : Expr → Emit Step
  | .call callee args => do
    let c ← expr scope callee
    let as ← exprs scope args
    return .call (← call c as true)
  | e => do return .discard (← expr scope e).boxed

mutual

/-- Emit a statement; `inLoop` tells whether a loop of the function encloses it. -/
def stmt (scope : Scope) (inLoop : Bool) : Stmt → Emit Step
  | .declare slot value => do
    scope.announce (Stmt.declare slot value).form
    scope.checkSlot slot
    match value with
    | some e => return .declare slot (← expr scope e).boxed
    | none => return .declare slot .nil
  | .assign slot value => do
    scope.announce (Stmt.assign slot value).form
    scope.checkSlot slot
    return .assign slot (← expr scope value).boxed
  | .setUpvalue index value => do
    scope.announce (Stmt.setUpvalue index value).form
    scope.checkUpvalue index
    return .setUpvalue index (← expr scope value).boxed
  | .setGlobal name value => do
    scope.announce (Stmt.setGlobal name value).form
    return .setGlobal name (← expr scope value).boxed
  | .setIndex target key value => do
    scope.announce (Stmt.setIndex target key value).form
    let t ← expr scope target
    match ← field? t.type key with
    | some f => return .setField f t.boxed (← expr scope value).boxed
    | none =>
      let k ← expr scope key
      let v ← expr scope value
      return .setIndex t.boxed k.boxed v.boxed
  | .expr e => do
    scope.announce (Stmt.expr e).form
    discard scope e
  | .branch cond thenBlock elseBlock => do
    scope.announce (Stmt.branch cond thenBlock elseBlock).form
    let c ← expr scope cond
    let t ← block scope inLoop thenBlock
    let e ← block scope inLoop elseBlock
    return .branch c.toTruth t e
  | .whileLoop cond body => do
    scope.announce (Stmt.whileLoop cond body).form
    let c ← expr scope cond
    let b ← block scope true body
    return .whileLoop c.toTruth b
  | .forLoop slot start limit step body => do
    scope.announce (Stmt.forLoop slot start limit step body).form
    scope.checkSlot slot
    let s ← expr scope start
    let l ← expr scope limit
    let d ← Emit.step scope step
    let b ← block scope true body
    return .forLoop slot (range s l d) b
  | .ret values => do
    scope.announce (Stmt.ret values).form
    ret scope values
  | .breakLoop => do
    scope.announce Stmt.breakLoop.form
    if inLoop then return .breakLoop else throw (.breakOutsideLoop scope.proto.ref.name)

/-- Emit the statements of a block in order. -/
def block (scope : Scope) (inLoop : Bool) : List Stmt → Emit (List Step)
  | [] => pure []
  | s :: rest => do
    let c ← stmt scope inLoop s
    let cs ← block scope inLoop rest
    return c :: cs

end
end Emit
end AdaptiveScript
