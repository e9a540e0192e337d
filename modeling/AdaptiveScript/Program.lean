import AdaptiveScript.Ty

/-!
# Programs

A program is a list of function prototypes, each referring only to earlier ones.  A
prototype has numbered local slots, parameters first, templates of its upvalues, and a
body of statements.

A local that some function literal of the body captures is shared with the closures of
that literal, so it is kept in a cell.  `Stmt.blockCaptures` lists the captured slots of
a body; literals inside nested prototypes do not count, for they capture slots of their
own function.

`blockFallsThrough` tells whether control can reach the end of a block, looking at the
last statement only.
-/

namespace AdaptiveScript

/-- Constants as programs write them. -/
inductive Literal where
  | nil
  | bool (b : Bool)
  | int (n : Int64)
  | float (x : Float)
  | str (s : String)
  deriving DecidableEq

namespace Literal

/-- The type of a constant. -/
def type : Literal → Ty
  | .nil => .nil
  | .bool _ => .boolean
  | .int _ => .integer
  | .float _ => .float
  | .str _ => .string

/-- The value of a constant. -/
def value : Literal → Value
  | .nil => .nil
  | .bool b => .bool b
  | .int n => .int n
  | .float x => .float x
  | .str s => .str s

end Literal

/-- Where a function literal takes one of its upvalues from. -/
inductive Capture where
  /-- A local of the enclosing function. -/
  | slot (index : Nat)
  /-- An upvalue of the enclosing function. -/
  | upvalue (index : Nat)
  deriving DecidableEq, Repr

mutual

/-- Expressions. -/
inductive Expr where
  | literal (l : Literal)
  /-- The value of a local. -/
  | slot (index : Nat)
  | upvalue (index : Nat)
  | global (name : String)
  | binary (op : BinOp) (left right : Expr)
  | logical (op : LogicalOp) (left right : Expr)
  | unary (op : UnOp) (operand : Expr)
  | index (target key : Expr)
  | call (callee : Expr) (args : List Expr)
  /-- A function literal: a closure of an earlier prototype. -/
  | function (proto : PrototypeRef) (captures : List Capture)
  /-- A table constructor, which describes its keys in a shape of its own. -/
  | table (shape : ShapeId) (entries : List Entry)

/-- Entries of a table constructor. -/
inductive Entry where
  | named (name : String) (value : Expr)
  | keyed (key value : Expr)
  /-- An entry keyed by its place among the positional ones, from one. -/
  | positional (value : Expr)

end

/-- Statements. -/
inductive Stmt where
  /-- Start a new variable in a slot; without a value it holds nil. -/
  | declare (slot : Nat) (value : Option Expr)
  | assign (slot : Nat) (value : Expr)
  | setUpvalue (index : Nat) (value : Expr)
  | setGlobal (name : String) (value : Expr)
  | setIndex (target key value : Expr)
  | expr (e : Expr)
  | branch (cond : Expr) (thenBlock elseBlock : List Stmt)
  | whileLoop (cond : Expr) (body : List Stmt)
  /-- A numeric loop; without a step it goes by one. -/
  | forLoop (slot : Nat) (start limit : Expr) (step : Option Expr) (body : List Stmt)
  | ret (values : List Expr)
  | breakLoop

namespace Expr

/-- The text of a constant text key. -/
def constantKey? : Expr → Option String
  | .literal (.str s) => some s
  | _ => none

/-- Whether an expression is a call, whose results a `return` passes on in full. -/
def isCall : Expr → Bool
  | .call _ _ => true
  | _ => false

/-- The name of an expression form. -/
def form : Expr → String
  | .literal _ => "Literal"
  | .slot _ => "Local"
  | .upvalue _ => "Upvalue"
  | .global _ => "Global"
  | .binary _ _ _ => "Binary"
  | .logical _ _ _ => "Logical"
  | .unary _ _ => "Unary"
  | .index _ _ => "Index"
  | .call _ _ => "Call"
  | .function _ _ => "Function"
  | .table _ _ => "Table"

end Expr

namespace Stmt

/-- The name of a statement form. -/
def form : Stmt → String
  | .declare _ _ => "Local"
  | .assign _ _ => "Assign"
  | .setUpvalue _ _ => "SetUpvalue"
  | .setGlobal _ _ => "SetGlobal"
  | .setIndex _ _ _ => "SetIndex"
  | .expr _ => "Expr"
  | .branch _ _ _ => "If"
  | .whileLoop _ _ => "While"
  | .forLoop _ _ _ _ _ => "NumericFor"
  | .ret _ => "Return"
  | .breakLoop => "Break"

end Stmt

/-! ## Captured slots -/

/-- The local slots among the captures of one function literal. -/
def Capture.slots (captures : List Capture) : List Nat :=
  captures.filterMap fun capture =>
    match capture with
    | .slot index => some index
    | .upvalue _ => none

mutual

/-- The local slots that function literals in an expression capture. -/
def Expr.captures : Expr → List Nat
  | .literal _ => []
  | .slot _ => []
  | .upvalue _ => []
  | .global _ => []
  | .binary _ left right => left.captures ++ right.captures
  | .logical _ left right => left.captures ++ right.captures
  | .unary _ operand => operand.captures
  | .index target key => target.captures ++ key.captures
  | .call callee args => callee.captures ++ Expr.listCaptures args
  | .function _ captures => Capture.slots captures
  | .table _ entries => Expr.entryCaptures entries

/-- The captured slots of a list of expressions. -/
def Expr.listCaptures : List Expr → List Nat
  | [] => []
  | e :: es => e.captures ++ Expr.listCaptures es

/-- The captured slots of a table constructor. -/
def Expr.entryCaptures : List Entry → List Nat
  | [] => []
  | .named _ value :: rest => value.captures ++ Expr.entryCaptures rest
  | .keyed key value :: rest => key.captures ++ value.captures ++ Expr.entryCaptures rest
  | .positional value :: rest => value.captures ++ Expr.entryCaptures rest

end

/-- The captured slots of an expression that may be absent. -/
def Expr.optionCaptures (e? : Option Expr) : List Nat :=
  (e?.map Expr.captures).getD []

mutual

/-- The local slots that function literals in a statement capture. -/
def Stmt.captures : Stmt → List Nat
  | .declare _ value => Expr.optionCaptures value
  | .assign _ value => value.captures
  | .setUpvalue _ value => value.captures
  | .setGlobal _ value => value.captures
  | .setIndex target key value => target.captures ++ key.captures ++ value.captures
  | .expr e => e.captures
  | .branch cond thenBlock elseBlock =>
    cond.captures ++ Stmt.blockCaptures thenBlock ++ Stmt.blockCaptures elseBlock
  | .whileLoop cond body => cond.captures ++ Stmt.blockCaptures body
  | .forLoop _ start limit step body =>
    start.captures ++ limit.captures ++ Expr.optionCaptures step ++ Stmt.blockCaptures body
  | .ret values => Expr.listCaptures values
  | .breakLoop => []

/-- The captured slots of a block. -/
def Stmt.blockCaptures : List Stmt → List Nat
  | [] => []
  | s :: rest => s.captures ++ Stmt.blockCaptures rest

end

/-! ## Reaching the end of a block -/

mutual

/-- Whether control can go on after a statement that ends its block. -/
def Stmt.fallsThrough : Stmt → Bool
  | .ret _ => false
  | .branch _ thenBlock elseBlock =>
    Stmt.blockFallsThrough thenBlock || Stmt.blockFallsThrough elseBlock
  | _ => true

/-- Whether control can reach the end of a block. -/
def Stmt.blockFallsThrough : List Stmt → Bool
  | [] => true
  | [s] => s.fallsThrough
  | _ :: s :: rest => Stmt.blockFallsThrough (s :: rest)

end

/-! ## Prototypes -/

/-- A local of a prototype. -/
structure LocalDecl where
  /-- The name it was declared under. -/
  name : String
  /-- Whether a function literal captures it, so that it is kept in a cell. -/
  captured : Bool
  deriving DecidableEq, Repr

/-- What is known about one upvalue of every closure of a prototype. -/
structure UpvalueTemplate where
  /-- The name it was declared under. -/
  name : String
  /-- The type that every closure guarantees, if any. -/
  knownType : Option Ty
  /-- Whether the cell is never written once the closure exists, so that the type of its
  value is fixed for each closure. -/
  isSealed : Bool
  deriving DecidableEq, Repr

namespace UpvalueTemplate

/-- The type that every closure guarantees. -/
def staticType (template : UpvalueTemplate) : Ty :=
  template.knownType.getD .unknown

end UpvalueTemplate

/-- A function prototype. -/
structure Prototype where
  /-- Which prototype this is, and its name. -/
  ref : PrototypeRef
  /-- How many of the locals are parameters. -/
  paramCount : Nat
  /-- The locals, parameters first. -/
  locals : Array LocalDecl
  /-- The upvalues of its closures. -/
  upvalues : Array UpvalueTemplate
  /-- The statements it runs. -/
  body : List Stmt

namespace Prototype

/-- A prototype from its parts, with the captured locals marked. -/
def ofParts (ref : PrototypeRef) (params locals : List String)
    (upvalues : List UpvalueTemplate) (body : List Stmt) : Prototype :=
  let captured := Stmt.blockCaptures body
  { ref
    paramCount := params.length
    locals := ((params ++ locals).zipIdx.map fun (name, slot) =>
      { name, captured := captured.contains slot }).toArray
    upvalues := upvalues.toArray
    body }

/-- How many local slots a frame of the prototype has. -/
def localCount (proto : Prototype) : Nat :=
  proto.locals.size

/-- Whether a slot is kept in a cell. -/
def isCaptured (proto : Prototype) (slot : Nat) : Bool :=
  (proto.locals[slot]?.map LocalDecl.captured).getD false

/-- The upvalue types that all closures of the prototype share. -/
def staticUpvalueTypes (proto : Prototype) : List Ty :=
  proto.upvalues.toList.map UpvalueTemplate.staticType

end Prototype

/-- The prototypes of a program, the first having number one. -/
structure Program where
  /-- The prototypes in order. -/
  prototypes : Array Prototype

namespace Program

/-- The prototype a reference stands for. -/
def prototype? (program : Program) (ref : PrototypeRef) : Option Prototype :=
  match ref.id with
  | 0 => none
  | index + 1 => program.prototypes[index]?

/-- How many prototypes there are. -/
def size (program : Program) : Nat :=
  program.prototypes.size

end Program
end AdaptiveScript
