import AdaptiveScript.Program
import AdaptiveScript.Table

/-!
# Specialized code

Code is a tree whose every node has a representation: an unboxed integer, float or
boolean, or a boxed value.  The representation is part of the type of a node, so code that
adds two unboxed integers cannot be given anything else.  Between representations there
are four explicit steps: boxing, unboxing (which checks), widening to a float, and testing
for truth.

Calls go through numbered call sites, fields of known layouts through numbered slots.
-/

namespace AdaptiveScript

/-- Reference to a call site.  Call sites count from one. -/
abbrev SiteId := Nat

/-- How the result of a piece of code is represented. -/
inductive Rep where
  | int
  | float
  | bool
  | value
  deriving DecidableEq, Repr

namespace Rep

/-- The results of a representation. -/
abbrev Carrier : Rep → Type
  | .int => Int64
  | .float => Float
  | .bool => Bool
  | .value => Value

/-- A result as a value. -/
def box : (r : Rep) → r.Carrier → Value
  | .int, n => .int n
  | .float, x => .float x
  | .bool, b => .bool b
  | .value, v => v

/-- A value as an unboxed result; any other value was not expected here. -/
def unbox : (r : Rep) → Value → Except RuntimeError r.Carrier
  | .int, .int n => .ok n
  | .int, v => .error (.violation .int v.kind)
  | .float, .float x => .ok x
  | .float, v => .error (.violation .float v.kind)
  | .bool, .bool b => .ok b
  | .bool, v => .error (.violation .bool v.kind)
  | .value, v => .ok v

/-- A result as a float.  Integers widen; what is no number cannot be computed with. -/
def widen : (r : Rep) → r.Carrier → Except RuntimeError Float
  | .int, n => .ok (Binary64.ofInt64 n)
  | .float, x => .ok x
  | .bool, _ => .error (.arithmetic .boolean)
  | .value, v =>
    match v.asFloat? with
    | some x => .ok x
    | none => .error (.arithmetic v.kind)

/-- Whether a result counts as true.  Numbers always do. -/
def isTruthy : (r : Rep) → r.Carrier → Bool
  | .int, _ => true
  | .float, _ => true
  | .bool, b => b
  | .value, v => v.isTruthy

end Rep

namespace Ty

/-- The representation of values of a type. -/
def rep : Ty → Rep
  | .integer => .int
  | .float => .float
  | .boolean => .bool
  | _ => .value

end Ty

/-- A constant text key with the slot it has in one layout. -/
structure Field where
  /-- The shape of the layout. -/
  shape : ShapeId
  /-- The slot of the key in that layout. -/
  slot : Nat
  /-- The key. -/
  key : String
  deriving DecidableEq, Repr

mutual

/-- Code of an expression, by representation of its result. -/
inductive Code : Rep → Type where
  | nil : Code .value
  | bool (b : Bool) : Code .bool
  | int (n : Int64) : Code .int
  | float (x : Float) : Code .float
  /-- A constant of the routine. -/
  | constant (index : Nat) : Code .value
  | slot (index : Nat) : Code .value
  | upvalue (index : Nat) : Code .value
  | global (name : String) : Code .value
  | box (r : Rep) (c : Code r) : Code .value
  | unbox (r : Rep) (c : Code .value) : Code r
  | widen (r : Rep) (c : Code r) : Code .float
  | truthy (r : Rep) (c : Code r) : Code .bool
  | intArith (op : BinOp) (a b : Code .int) : Code .int
  | floatArith (op : BinOp) (a b : Code .float) : Code .float
  | intCompare (op : BinOp) (a b : Code .int) : Code .bool
  | intFloatCompare (op : BinOp) (a : Code .int) (b : Code .float) : Code .bool
  | floatIntCompare (op : BinOp) (a : Code .float) (b : Code .int) : Code .bool
  | floatCompare (op : BinOp) (a b : Code .float) : Code .bool
  /-- Equality of boxed values, or its negation. -/
  | same (op : BinOp) (a b : Code .value) : Code .bool
  /-- An order comparison of boxed values. -/
  | order (op : BinOp) (a b : Code .value) : Code .bool
  | concat (a b : Code .value) : Code .value
  /-- Any operator on boxed values. -/
  | binary (op : BinOp) (a b : Code .value) : Code .value
  | boolLogical (op : LogicalOp) (a b : Code .bool) : Code .bool
  | logical (op : LogicalOp) (a b : Code .value) : Code .value
  | negInt (c : Code .int) : Code .int
  | negFloat (c : Code .float) : Code .float
  | not (c : Code .bool) : Code .bool
  /-- Any operator on a boxed value. -/
  | unary (op : UnOp) (c : Code .value) : Code .value
  /-- The value of a key that has a slot in tables of the expected layout. -/
  | field (field : Field) (target : Code .value) : Code .value
  | index (target key : Code .value) : Code .value
  /-- The first result of a call. -/
  | first (call : CallCode) : Code .value
  | function (proto : PrototypeRef) (captures : List Capture) : Code .value
  | table (layout : Layout) (inits : List Init) : Code .value

/-- Code of a call: callee first, then the arguments from left to right. -/
inductive CallCode where
  | mk (site : SiteId) (callee : Code .value) (args : List (Code .value))

/-- How a table constructor fills one entry. -/
inductive Init where
  | slot (slot : Nat) (value : Code .value)
  | named (name : String) (value : Code .value)
  | keyed (key value : Code .value)
  | positional (value : Code .value)

end

/-- Code of the operands of a numeric loop. -/
inductive RangeCode where
  /-- An integer loop; its limit may be a float. -/
  | int (start : Code .int) (limit : Code .value) (step : Code .int)
  | float (start limit step : Code .float)
  /-- A loop whose operands are examined when it starts. -/
  | dynamic (start limit step : Code .value)

/-- Code of a statement. -/
inductive Step where
  | declare (slot : Nat) (value : Code .value)
  | assign (slot : Nat) (value : Code .value)
  | setUpvalue (index : Nat) (value : Code .value)
  | setGlobal (name : String) (value : Code .value)
  | setField (field : Field) (target value : Code .value)
  | setIndex (target key value : Code .value)
  | discard (value : Code .value)
  | call (call : CallCode)
  | branch (cond : Code .bool) (thenBlock elseBlock : List Step)
  | whileLoop (cond : Code .bool) (body : List Step)
  | forLoop (slot : Nat) (range : RangeCode) (body : List Step)
  | ret (values : List (Code .value))
  /-- Return all results of a call. -/
  | retCall (call : CallCode)
  | breakLoop

/-! ## Code together with its type -/

/-- Code of an expression with the type found for it. -/
structure Emitted where
  /-- The static type. -/
  type : Ty
  /-- The representation. -/
  rep : Rep
  /-- The code. -/
  code : Code rep

namespace Emitted

/-- Code of a boxed value, unboxed if its type has a representation of its own. -/
def narrow (type : Ty) (c : Code .value) : Emitted :=
  match type.rep with
  | .value => ⟨type, .value, c⟩
  | r => ⟨type, r, .unbox r c⟩

/-- Code of the boxed value. -/
def boxed : Emitted → Code .value
  | ⟨_, .value, c⟩ => c
  | ⟨_, r, c⟩ => .box r c

/-- Code of the unboxed integer. -/
def toInt : Emitted → Code .int
  | ⟨_, .int, c⟩ => c
  | e => .unbox .int e.boxed

/-- Code of the unboxed float. -/
def toFloat : Emitted → Code .float
  | ⟨_, .float, c⟩ => c
  | ⟨_, r, c⟩ => .widen r c

/-- Code of a test for truth. -/
def toTruth : Emitted → Code .bool
  | ⟨_, .bool, c⟩ => c
  | ⟨_, r, c⟩ => .truthy r c

/-- Code of a binary operator that goes through boxed values. -/
def boxedBinary (op : BinOp) (l r : Emitted) : Emitted :=
  let out := Ty.binaryType op l.type r.type
  match op with
  | .eq | .ne => ⟨out, .bool, .same op l.boxed r.boxed⟩
  | .lt | .le | .gt | .ge => ⟨out, .bool, .order op l.boxed r.boxed⟩
  | .concat => ⟨out, .value, .concat l.boxed r.boxed⟩
  | _ => narrow out (.binary op l.boxed r.boxed)

/-- Code of a binary operator.  Numbers of known types are computed with unboxed; all else
goes through boxed values. -/
def binary (op : BinOp) (l r : Emitted) : Emitted :=
  let out := Ty.binaryType op l.type r.type
  let bothInt := l.type = .integer ∧ r.type = .integer
  let bothNumeric := l.type.isNumeric && r.type.isNumeric
  if op.hasIntKernel ∧ bothInt then ⟨out, .int, .intArith op l.toInt r.toInt⟩
  else if op.isArithmetic && bothNumeric then ⟨out, .float, .floatArith op l.toFloat r.toFloat⟩
  else if op.isComparison ∧ bothInt then ⟨out, .bool, .intCompare op l.toInt r.toInt⟩
  else if op.isComparison && bothNumeric then
    if l.type = .integer then ⟨out, .bool, .intFloatCompare op l.toInt r.toFloat⟩
    else if r.type = .integer then ⟨out, .bool, .floatIntCompare op l.toFloat r.toInt⟩
    else ⟨out, .bool, .floatCompare op l.toFloat r.toFloat⟩
  else boxedBinary op l r

/-- Code of a short-circuit operator. -/
def logical (op : LogicalOp) (l r : Emitted) : Emitted :=
  let type := l.type.join r.type
  match l, r with
  | ⟨_, .bool, a⟩, ⟨_, .bool, b⟩ => ⟨type, .bool, .boolLogical op a b⟩
  | l, r => narrow type (.logical op l.boxed r.boxed)

/-- Code of a unary operator. -/
def unary (op : UnOp) (operand : Emitted) : Emitted :=
  let out := Ty.unaryType op operand.type
  match op, operand with
  | .neg, ⟨_, .int, c⟩ => ⟨out, .int, .negInt c⟩
  | .neg, ⟨_, .float, c⟩ => ⟨out, .float, .negFloat c⟩
  | .not, e => ⟨out, .bool, .not e.toTruth⟩
  | op, e => narrow out (.unary op e.boxed)

end Emitted
end AdaptiveScript
