import AdaptiveScript.Number.Binary64

/-!
# Decimal text of floats

A finite float is written with the fewest decimal digits that read back as the same
float; among those of least length the nearest to the float is taken, and of two
equally near ones the upper.  The digits are then laid out positionally: there is no
exponent part, however large or small the number is.

The search is exact.  A float stands in the middle of an interval of rationals that all
round to it, and its two neighbours on a decimal grid are compared with the ends of
that interval over one common denominator.  If any point of the grid lies in the
interval then one of these two neighbours does, so trying grids of one, two, three, …
digits finds the shortest form.
-/

namespace AdaptiveScript

/-- The number `digits * 10 ^ exponent`. -/
structure Decimal where
  /-- All digits, read as one number. -/
  digits : Nat
  /-- The power of ten that the digits are multiplied by. -/
  exponent : Int
  deriving DecidableEq, Repr

namespace Decimal

/-- How many decimal digits a number has.  Zero has none. -/
def width (n : Nat) : Nat :=
  if n = 0 then 0 else (Nat.toDigits 10 n).length

/-- The same number without a last digit zero. -/
def dropZero (d : Decimal) : Decimal :=
  if d.digits % 10 = 0 then ⟨d.digits / 10, d.exponent + 1⟩ else d

/-- A positive rational together with the rationals that round to it, all over one
denominator. -/
structure RoundingInterval where
  /-- The number itself, over `denominator`. -/
  value : Nat
  /-- The lower end, over `denominator`. -/
  low : Nat
  /-- The upper end, over `denominator`. -/
  high : Nat
  /-- The common denominator. -/
  denominator : Nat
  /-- Whether the ends themselves round to the number. -/
  closed : Bool

namespace RoundingInterval

/-- The interval of a finite, non-zero float, in quarters of a unit.  The gap below a
power of two is half the gap above it, and the ends belong to the interval exactly when
the significand is even. -/
def ofFloat (x : Float) : RoundingInterval :=
  let step := 1 <<< Binary64.place x
  let value := 4 * Binary64.significand x * step
  let gapBelow :=
    if Binary64.fractionField x = 0 ∧ 1 < Binary64.exponentField x then step else 2 * step
  { value
    low := value - gapBelow
    high := value + 2 * step
    denominator := 4 * Binary64.unitsPerOne.toNat
    closed := Binary64.significand x % 2 = 0 }

/-- The power of ten just above the number: `10 ^ (magnitude - 1) ≤ value < 10 ^ magnitude`. -/
def magnitude (r : RoundingInterval) : Int :=
  if r.denominator ≤ r.value then width (r.value / r.denominator)
  else 1 - width (r.denominator / r.value)

/-- The point of the grid of multiples of `10 ^ exponent` that lies in the interval and
is nearest to the number, if there is one. -/
def onGrid? (r : RoundingInterval) (exponent : Int) : Option Decimal :=
  let scale := Nat.pow 10 (-exponent).toNat
  let cell := r.denominator * Nat.pow 10 exponent.toNat
  let below := r.value * scale / cell
  let inside (point : Nat) : Bool :=
    if r.closed then r.low * scale ≤ point * cell && point * cell ≤ r.high * scale
    else r.low * scale < point * cell && point * cell < r.high * scale
  match inside below, inside (below + 1) with
  | true, true =>
    if 2 * (r.value * scale - below * cell) < cell then some ⟨below, exponent⟩
    else some ⟨below + 1, exponent⟩
  | true, false => some ⟨below, exponent⟩
  | false, true => some ⟨below + 1, exponent⟩
  | false, false => none

/-- The shortest decimal in the interval.  Seventeen digits tell any two floats apart,
so the search ends there.  A nine that is rounded up carries into a new digit and leaves
one zero behind it. -/
def shortest (r : RoundingInterval) : Decimal :=
  match (List.range 17).findSome? fun (n : Nat) => r.onGrid? (r.magnitude - (n + 1)) with
  | some d => d.dropZero
  | none => ⟨0, 0⟩

end RoundingInterval

/-- The shortest decimal that reads back as the magnitude of a finite float. -/
def ofFloat (x : Float) : Decimal :=
  if Binary64.significand x = 0 then ⟨0, 0⟩ else (RoundingInterval.ofFloat x).shortest

/-- The digits with the point where it belongs: no exponent part, no point after a whole
number, a zero before a leading point. -/
def positional (d : Decimal) : String :=
  let digits := Nat.toDigits 10 d.digits
  if 0 ≤ d.exponent then String.ofList (digits ++ List.replicate d.exponent.toNat '0')
  else
    let places := (-d.exponent).toNat
    let padded := List.replicate (places + 1 - digits.length) '0' ++ digits
    let split := padded.length - places
    String.ofList (padded.take split ++ '.' :: padded.drop split)

/-- The text of any float: sign, then `NaN`, `inf` or the shortest digits. -/
def text (x : Float) : String :=
  match Binary64.reading x with
  | .nan => "NaN"
  | .negInfinity => "-inf"
  | .posInfinity => "inf"
  | .finite _ => (if Binary64.isNegative x then "-" else "") ++ (ofFloat x).positional

end Decimal
end AdaptiveScript
