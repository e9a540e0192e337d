/-!
# Operators

The fourteen binary and three unary operators of the language, how they are written, and
the families that decide which kernel applies them: arithmetic operators work on
numbers, five of them have an integer kernel, and comparisons give booleans.
-/

namespace AdaptiveScript

/-- Binary operators. -/
inductive BinOp where
  | add
  | sub
  | mul
  | div
  | mod
  | pow
  | floorDiv
  | concat
  | eq
  | ne
  | lt
  | le
  | gt
  | ge
  deriving DecidableEq, Repr

/-- Unary operators: negation, logical negation, length. -/
inductive UnOp where
  | neg
  | not
  | len
  deriving DecidableEq, Repr

/-- The two short-circuit operators; they yield one of their operands. -/
inductive LogicalOp where
  | and
  | or
  deriving DecidableEq, Repr

namespace BinOp

/-- All binary operators, arithmetic first and comparisons last. -/
def all : List BinOp :=
  [.add, .sub, .mul, .div, .mod, .pow, .floorDiv, .concat, .eq, .ne, .lt, .le, .gt, .ge]

/-- How an operator is written. -/
def symbol : BinOp → String
  | .add => "+"
  | .sub => "-"
  | .mul => "*"
  | .div => "/"
  | .mod => "%"
  | .pow => "^"
  | .floorDiv => "//"
  | .concat => ".."
  | .eq => "=="
  | .ne => "~="
  | .lt => "<"
  | .le => "<="
  | .gt => ">"
  | .ge => ">="

/-- The operators on numbers. -/
def isArithmetic : BinOp → Bool
  | .add | .sub | .mul | .div | .mod | .pow | .floorDiv => true
  | _ => false

/-- The operators that give a boolean. -/
def isComparison : BinOp → Bool
  | .eq | .ne | .lt | .le | .gt | .ge => true
  | _ => false

/-- The arithmetic operators that stay within the integers on integers.  Division and
powers always give a float. -/
def hasIntKernel : BinOp → Bool
  | .add | .sub | .mul | .mod | .floorDiv => true
  | _ => false

/-- Whether a comparison holds of two operands in the given order. -/
def holds : BinOp → Ordering → Bool
  | .eq, o => o.isEq
  | .ne, o => o.isNe
  | .lt, o => o.isLT
  | .le, o => o.isLE
  | .gt, o => o.isGT
  | .ge, o => o.isGE
  | _, _ => false

/-- Whether a comparison holds of two numbers that may be unordered.  Unordered operands
are different and nothing else. -/
def holdsPartial (op : BinOp) : Option Ordering → Bool
  | some o => op.holds o
  | none => op == .ne

end BinOp

namespace UnOp

/-- All unary operators. -/
def all : List UnOp :=
  [.neg, .not, .len]

end UnOp
end AdaptiveScript
