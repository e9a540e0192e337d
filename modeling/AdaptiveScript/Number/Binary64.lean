/-!
# What a binary64 word denotes

Numbers of the language are 64-bit integers and binary64 floats, and the two are
compared *exactly*: no integer is rounded to a float first.  So every comparison,
every integral test and every bound of an integer loop is taken on the number a word
denotes and not on the word.

Every finite binary64 number is a whole multiple of `2 ^ (-1074)`, the least positive
one.  Measured in that unit a finite number is an integer, an integer `n` is
`n * 2 ^ 1074` units, and the exact order of mixed numbers is the order of two
integers.  The sign of a zero is not part of what a word denotes.

* `reading` takes a float to NaN, an infinity or a count of units;
* `order` and `intOrder` are the exact orders, undefined on NaN only;
* `floor`, `ceil` and `isIntegral` are exact as well.
-/

namespace AdaptiveScript
namespace Binary64

/-- The number of units in one: the least positive binary64 number is `2 ^ (-1074)`. -/
def unitsPerOne : Int := (1 <<< 1074 : Nat)

/-- What a binary64 word stands for. -/
inductive Reading where
  /-- Not a number: unordered with everything, itself included. -/
  | nan
  /-- Below every finite number. -/
  | negInfinity
  /-- A finite number, as a count of units. -/
  | finite (units : Int)
  /-- Above every finite number. -/
  | posInfinity
  deriving DecidableEq, Repr

/-- The sign bit. -/
def isNegative (x : Float) : Bool :=
  1 <<< 63 ≤ x.toBits.toNat

/-- The eleven exponent bits. -/
def exponentField (x : Float) : Nat :=
  (x.toBits.toNat >>> 52) % (1 <<< 11)

/-- The fifty-two fraction bits. -/
def fractionField (x : Float) : Nat :=
  x.toBits.toNat % (1 <<< 52)

/-- The significand of a finite word: the leading one is implicit unless the exponent
field is zero. -/
def significand (x : Float) : Nat :=
  if exponentField x = 0 then fractionField x else (1 <<< 52) + fractionField x

/-- How many places the significand stands above the unit: a finite word denotes
`significand * 2 ^ place` units, up to sign. -/
def place (x : Float) : Nat :=
  exponentField x - 1

/-- The number a word denotes, by its three fields. -/
def reading (x : Float) : Reading :=
  if exponentField x = 2047 then
    if fractionField x ≠ 0 then .nan
    else if isNegative x then .negInfinity
    else .posInfinity
  else
    let magnitude : Int := (significand x <<< place x : Nat)
    .finite (if isNegative x then -magnitude else magnitude)

namespace Reading

/-- The order of two denoted numbers, undefined as soon as one of them is NaN. -/
def order : Reading → Reading → Option Ordering
  | .nan, _ => none
  | _, .nan => none
  | .negInfinity, .negInfinity => some .eq
  | .negInfinity, _ => some .lt
  | _, .negInfinity => some .gt
  | .posInfinity, .posInfinity => some .eq
  | .posInfinity, _ => some .gt
  | _, .posInfinity => some .lt
  | .finite a, .finite b => some (compare a b)

/-- The number an integer denotes. -/
def ofInt (n : Int) : Reading :=
  .finite (n * unitsPerOne)

end Reading

/-- The exact order of two floats. -/
def order (x y : Float) : Option Ordering :=
  (reading x).order (reading y)

/-- The number of units in `2 ^ 63`, the first float above every 64-bit integer. -/
def integerBound : Int := (1 <<< 63 : Nat) * unitsPerOne

/-- The exact order of an integer against a float: no integer is rounded.  A float beyond all
integers is past any of them.  The whole part of any other float is a 64-bit integer, and if
that is the integer the fraction decides. -/
def intOrder (n : Int64) (x : Float) : Option Ordering :=
  match reading x with
  | .nan => none
  | .negInfinity => some .gt
  | .posInfinity => some .lt
  | .finite units =>
    if integerBound ≤ units then some .lt
    else if units < -integerBound then some .gt
    else
      let whole := units.tdiv unitsPerOne
      some ((compare n.toInt (Int64.ofInt whole).toInt).then
        (compare (whole * unitsPerOne) units))

/-- Whether a float is a whole number.  Infinities and NaN are not. -/
def isIntegral (x : Float) : Bool :=
  match reading x with
  | .finite units => units % unitsPerOne == 0
  | _ => false

/-- The greatest integer not above a finite float. -/
def floor (x : Float) : Int :=
  match reading x with
  | .finite units => units / unitsPerOne
  | _ => 0

/-- The least integer not below a finite float. -/
def ceil (x : Float) : Int :=
  match reading x with
  | .finite units => -(-units / unitsPerOne)
  | _ => 0

/-- Whether `|x| < n` for a finite or infinite float; false on NaN. -/
def absBelow (x : Float) (n : Nat) : Bool :=
  match reading x with
  | .finite units => units.natAbs < n * unitsPerOne.natAbs
  | _ => false

/-- The float nearest to an integer, ties to even. -/
def ofInt64 (n : Int64) : Float :=
  Float.ofInt n.toInt

end Binary64
end AdaptiveScript
