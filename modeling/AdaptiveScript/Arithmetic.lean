import AdaptiveScript.Error

/-!
# Applying operators to values

`binary` and `unary` are the operators on arbitrary values: they look at the values they
are given and choose a kernel.

* `intArith` is the integer kernel.  Sums, differences and products wrap around at 64
  bits.  Division truncates in hardware; the quotient and the remainder are corrected so
  that the quotient is floored and the remainder has the sign of the divisor.
* `floatArith` is the float kernel.
* `compareValues` orders numbers by what they denote and texts by code point; no other
  values are ordered.  NaN is unordered and then every order comparison is false.
-/

namespace AdaptiveScript

/-- The integer kernel of `+ - * % //`. -/
def intArith (op : BinOp) (a b : Int64) : Except RuntimeError Int64 :=
  match op with
  | .add => .ok (a + b)
  | .sub => .ok (a - b)
  | .mul => .ok (a * b)
  | .mod =>
    if b = 0 then .error (.zeroDivision .modulo)
    else
      let r := a % b
      if r ≠ 0 ∧ (r ^^^ b) < 0 then .ok (r + b) else .ok r
  | .floorDiv =>
    if b = 0 then .error (.zeroDivision .floorDivision)
    else
      let q := a / b
      if a % b ≠ 0 ∧ (a ^^^ b) < 0 then .ok (q - 1) else .ok q
  | _ => .error (.noIntKernel op)

/-- The float kernel of every arithmetic operator.  Other operators give NaN. -/
def floatArith (op : BinOp) (a b : Float) : Float :=
  match op with
  | .add => a + b
  | .sub => a - b
  | .mul => a * b
  | .div => a / b
  | .pow => a.pow b
  | .mod => a - (a / b).floor * b
  | .floorDiv => (a / b).floor
  | _ => 0.0 / 0.0

/-- Both operands as floats; the left one is blamed first. -/
def floatOperands (a b : Value) : Except RuntimeError (Float × Float) :=
  match a.asFloat?, b.asFloat? with
  | some x, some y => .ok (x, y)
  | none, _ => .error (.arithmetic a.kind)
  | _, none => .error (.arithmetic b.kind)

/-- Whether a value can stand in a concatenation: texts and numbers can. -/
def isConcatenable : Value → Bool
  | .str _ => true
  | .int _ => true
  | .float _ => true
  | _ => false

/-- Concatenation of texts and numbers; the left operand is blamed first. -/
def concatenate (a b : Value) : Except RuntimeError String :=
  if !isConcatenable a then .error (.concatenation a.kind)
  else if !isConcatenable b then .error (.concatenation b.kind)
  else .ok (a.text ++ b.text)

/-- The order of two values, if values of their kinds are ordered at all; numbers may
still be unordered. -/
def orderOf : Value → Value → Except RuntimeError (Option Ordering)
  | .int a, .int b => .ok (some (compare a.toInt b.toInt))
  | .int a, .float b => .ok (Binary64.intOrder a b)
  | .float a, .int b => .ok ((Binary64.intOrder b a).map Ordering.swap)
  | .float a, .float b => .ok (Binary64.order a b)
  | .str a, .str b => .ok (some (compare a b))
  | a, b => .error (.comparison a.kind b.kind)

/-- Whether an order comparison holds; false of unordered numbers, and false of the
operators that are no order comparison. -/
def compareValues (op : BinOp) (a b : Value) : Except RuntimeError Bool := do
  match ← orderOf a b with
  | none => return false
  | some o =>
    match op with
    | .lt | .le | .gt | .ge => return op.holds o
    | _ => return false

/-- A binary operator on any two values. -/
def binary (op : BinOp) (a b : Value) : Except RuntimeError Value :=
  match op with
  | .add | .sub | .mul | .mod | .floorDiv =>
    match a, b with
    | .int x, .int y => (intArith op x y).map Value.int
    | _, _ => (floatOperands a b).map fun (x, y) => .float (floatArith op x y)
  | .div | .pow => (floatOperands a b).map fun (x, y) => .float (floatArith op x y)
  | .concat => (concatenate a b).map Value.str
  | .eq => .ok (.bool (a.equals b))
  | .ne => .ok (.bool (!a.equals b))
  | .lt | .le | .gt | .ge => (compareValues op a b).map Value.bool

/-- A unary operator on any value.  The length of a text is its number of bytes in
UTF-8, and `border` gives the length of a table. -/
def unary (border : TableId → Int64) (op : UnOp) (a : Value) : Except RuntimeError Value :=
  match op with
  | .not => .ok (.bool (!a.isTruthy))
  | .neg =>
    match a with
    | .int n => .ok (.int (-n))
    | .float x => .ok (.float (-x))
    | _ => .error (.arithmetic a.kind)
  | .len =>
    match a with
    | .str s => .ok (.int (Int64.ofNat s.utf8ByteSize))
    | .table t => .ok (.int (border t))
    | _ => .error (.length a.kind)

end AdaptiveScript
