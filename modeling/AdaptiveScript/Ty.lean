import AdaptiveScript.Operator
import AdaptiveScript.Value

/-!
# Static types

The types that code is specialized for form a flat lattice: two different types have
only `unknown` above them.  A table type may name the shape its tables were laid out by,
and a function type names the prototype of its closures.  Shapes and prototypes are
compared by identity.

The second half types the operators.  `binaryType` and `unaryType` give the type of a
result from the types of the operands, and `loopType` the type of the control variable
of a numeric loop.
-/

namespace AdaptiveScript

/-- A table shape.  Shapes count from one; zero marks the layout of tables that were not
laid out by a shape. -/
abbrev ShapeId := Nat

/-- The layout without slots has no shape of its own. -/
def dynamicShape : ShapeId := 0

/-- A function prototype as types and function values hold it.  Prototypes count from
one, and a prototype never changes its name. -/
structure PrototypeRef where
  /-- Which prototype. -/
  id : Nat
  /-- Its name. -/
  name : String
  deriving DecidableEq, Repr

/-- Static types. -/
inductive Ty where
  | nil
  | boolean
  | integer
  | float
  | string
  /-- Tables of any shape. -/
  | anyTable
  /-- Tables laid out by one shape. -/
  | tableOf (shape : ShapeId)
  /-- Closures of one prototype. -/
  | function (proto : PrototypeRef)
  /-- Any value. -/
  | unknown
  deriving DecidableEq, Repr, Inhabited

namespace Ty

/-- Whether a type says anything. -/
def isKnown : Ty → Bool
  | .unknown => false
  | _ => true

/-- Whether all values of a type are numbers. -/
def isNumeric : Ty → Bool
  | .integer => true
  | .float => true
  | _ => false

/-- The shape a table type names. -/
def shape? : Ty → Option ShapeId
  | .tableOf shape => some shape
  | _ => none

/-- The prototype a function type names. -/
def prototype? : Ty → Option PrototypeRef
  | .function proto => some proto
  | _ => none

/-- The least upper bound in the flat lattice. -/
def join (a b : Ty) : Ty :=
  if a = b then a else .unknown

/-- The type without the shape or prototype it names: what a shape may remember about the
value of a key. -/
def shallow : Ty → Ty
  | .tableOf _ => .anyTable
  | .function _ => .unknown
  | t => t

/-- How a type is written. -/
def text : Ty → String
  | .nil => "Nil"
  | .boolean => "Boolean"
  | .integer => "Integer"
  | .float => "Float"
  | .string => "String"
  | .anyTable => "Table"
  | .tableOf shape => "Table<#" ++ toString shape ++ ">"
  | .function proto => "Function<" ++ proto.name ++ "#" ++ toString proto.id ++ ">"
  | .unknown => "Unknown"

/-- Types separated by commas. -/
def commaText (types : List Ty) : String :=
  ", ".intercalate (types.map text)

/-- A list of types in parentheses. -/
def tupleText (types : List Ty) : String :=
  "(" ++ commaText types ++ ")"

/-! ## Joining -/

theorem join_self (a : Ty) : a.join a = a := by
  simp [join]

theorem join_comm (a b : Ty) : a.join b = b.join a := by
  unfold join
  by_cases h : a = b
  · rw [h]
  · rw [if_neg h, if_neg (Ne.symm h)]

theorem join_assoc (a b c : Ty) : (a.join b).join c = a.join (b.join c) := by
  unfold join
  by_cases hab : a = b <;> by_cases hbc : b = c
  · simp [hab, hbc]
  · subst hab
    by_cases ha : a = .unknown
    · simp [ha]
    · simp [hbc, ha]
  · subst hbc
    simp [hab]
  · rw [if_neg hab, if_neg hbc]
    by_cases ha : a = .unknown
    · simp [ha]
    · simp [ha]

/-! ## Types of results -/

/-- The type of a binary operator's result. -/
def binaryType (op : BinOp) (left right : Ty) : Ty :=
  match op with
  | .add | .sub | .mul | .mod | .floorDiv =>
    if left = .integer ∧ right = .integer then .integer
    else if left.isNumeric && right.isNumeric then .float
    else .unknown
  | .div | .pow => .float
  | .concat => .string
  | .eq | .ne | .lt | .le | .gt | .ge => .boolean

/-- The type of a unary operator's result. -/
def unaryType (op : UnOp) (operand : Ty) : Ty :=
  match op with
  | .neg => if operand.isNumeric then operand else .unknown
  | .not => .boolean
  | .len => .integer

/-- The type of the control variable of a numeric loop.  The limit of an integer loop may
be a float. -/
def loopType (start limit step : Ty) : Ty :=
  if start = .integer ∧ step = .integer ∧ limit.isNumeric then .integer
  else if start.isNumeric && limit.isNumeric && step.isNumeric then .float
  else .unknown

end Ty
end AdaptiveScript
