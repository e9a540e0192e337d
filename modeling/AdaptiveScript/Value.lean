import AdaptiveScript.Number.Decimal

/-!
# Values

A value is nil, a boolean, an integer, a float, a text, a table or a function.  Tables
and functions are shared and mutable, so a value holds a reference to one; its contents
are kept apart, by reference, and two of them are equal exactly when their references
are.  A function never changes its name, so a function reference carries it.
-/

namespace AdaptiveScript

/-- Reference to a table. -/
abbrev TableId := Nat

/-- Reference to a function. -/
abbrev FunctionId := Nat

/-- A function as a value holds it: which one, and the name it was made under. -/
structure FunctionRef where
  /-- Which function. -/
  id : FunctionId
  /-- Its name. -/
  name : String
  deriving DecidableEq, Repr

/-- Values of the language. -/
inductive Value where
  | nil
  | bool (b : Bool)
  | int (n : Int64)
  | float (x : Float)
  | str (s : String)
  | table (ref : TableId)
  | function (ref : FunctionRef)
  deriving DecidableEq, Inhabited

/-- The kinds of value that messages tell apart.  Integers and floats are both numbers. -/
inductive Kind where
  | nil
  | boolean
  | number
  | string
  | table
  | function
  deriving DecidableEq, Repr

namespace Kind

/-- The name of a kind. -/
def name : Kind → String
  | .nil => "nil"
  | .boolean => "boolean"
  | .number => "number"
  | .string => "string"
  | .table => "table"
  | .function => "function"

end Kind

namespace Value

/-- The kind of a value. -/
def kind : Value → Kind
  | .nil => .nil
  | .bool _ => .boolean
  | .int _ => .number
  | .float _ => .number
  | .str _ => .string
  | .table _ => .table
  | .function _ => .function

/-- Whether a value is nil. -/
def isNil : Value → Bool
  | .nil => true
  | _ => false

/-- Everything but nil and false counts as true. -/
def isTruthy : Value → Bool
  | .nil => false
  | .bool b => b
  | _ => true

/-- Whether a value is an integer or a float. -/
def isNumber : Value → Bool
  | .int _ => true
  | .float _ => true
  | _ => false

/-- The integer a value is. -/
def asInt? : Value → Option Int64
  | .int n => some n
  | _ => none

/-- The number a value is, as a float.  Integers widen. -/
def asFloat? : Value → Option Float
  | .float x => some x
  | .int n => some (Binary64.ofInt64 n)
  | _ => none

/-- The boolean a value is. -/
def asBool? : Value → Option Bool
  | .bool b => some b
  | _ => none

/-- The text a value is. -/
def asStr? : Value → Option String
  | .str s => some s
  | _ => none

/-- The text of a float: a whole number below `10 ^ 15` keeps one zero after the point. -/
def floatText (x : Float) : String :=
  if Binary64.isIntegral x && Binary64.absBelow x 1000000000000000 then Decimal.text x ++ ".0"
  else Decimal.text x

/-- The text of a value.  Where a table lives is not part of its text. -/
def text : Value → String
  | .nil => "nil"
  | .bool true => "true"
  | .bool false => "false"
  | .int n => toString n.toInt
  | .float x => floatText x
  | .str s => s
  | .table _ => "table: *"
  | .function ref => "function: " ++ ref.name

/-- Equality of the language: numbers by the number they denote, texts by content, tables
and functions by reference. -/
def equals : Value → Value → Bool
  | .nil, .nil => true
  | .bool a, .bool b => a == b
  | .int a, .int b => a == b
  | .float a, .float b => Binary64.order a b == some .eq
  | .int a, .float b => Binary64.intOrder a b == some .eq
  | .float a, .int b => Binary64.intOrder b a == some .eq
  | .str a, .str b => a == b
  | .table a, .table b => a == b
  | .function a, .function b => a.id == b.id
  | _, _ => false

end Value
end AdaptiveScript
