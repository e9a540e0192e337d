import AdaptiveScript.Number.Decimal

/-!
# Reading numbers

Two readers, both on the characters of a text without surrounding blanks.

* `readInt?` takes an optional sign and one or more digits of a radix, and refuses what
  does not fit in 64 bits.
* `readFloat?` takes an optional sign and then a word (`inf`, `infinity`, `nan`, in any
  case) or decimal digits with an optional fraction and an optional exponent, at least
  one digit standing before the exponent.  The result is the float nearest to the
  decimal written.
-/

namespace AdaptiveScript
namespace Numeral

/-- The value of one digit, letters counting from ten in either case. -/
def digit? (radix : Nat) (c : Char) : Option Nat :=
  let value? :=
    if '0' ≤ c ∧ c ≤ '9' then some (c.toNat - '0'.toNat)
    else if 'a' ≤ c ∧ c ≤ 'z' then some (c.toNat - 'a'.toNat + 10)
    else if 'A' ≤ c ∧ c ≤ 'Z' then some (c.toNat - 'A'.toNat + 10)
    else none
  value?.filter (· < radix)

/-- The digits of a text read as one number, if all its characters are digits. -/
def digits? (radix : Nat) (cs : List Char) : Option Nat :=
  cs.foldl (fun total? c => do return (← total?) * radix + (← digit? radix c)) (some 0)

/-- An optional sign and what follows it. -/
def splitSign : List Char → Bool × List Char
  | '-' :: cs => (true, cs)
  | '+' :: cs => (false, cs)
  | cs => (false, cs)

/-- A natural number: an optional plus and one or more decimal digits, below `bound`. -/
def readNat? (bound : Nat) (cs : List Char) : Option Nat :=
  let body := match cs with
    | '+' :: rest => rest
    | _ => cs
  if body.isEmpty then none else (digits? 10 body).filter (· < bound)

/-- A signed 64-bit integer: an optional sign and one or more digits. -/
def readInt? (radix : Nat) (cs : List Char) : Option Int64 :=
  let (negative, body) := splitSign cs
  if body.isEmpty then none
  else do
    let n ← digits? radix body
    if negative then
      if n ≤ 1 <<< 63 then some (Int64.ofInt (-n)) else none
    else
      if n < 1 <<< 63 then some (Int64.ofInt n) else none

/-- The longest run of decimal digits at the front, and the rest. -/
def takeDigits (cs : List Char) : List Char × List Char :=
  (cs.takeWhile Char.isDigit, cs.dropWhile Char.isDigit)

/-- The exponent part, which is the rest of the text: absent, or `e`, an optional sign
and one or more digits. -/
def exponent? : List Char → Option Int
  | [] => some 0
  | c :: cs =>
    if c = 'e' ∨ c = 'E' then
      let (negative, body) := splitSign cs
      if body.isEmpty then none
      else (digits? 10 body).map fun n => if negative then -(n : Int) else n
    else none

/-- An unsigned decimal: digits, an optional fraction, an optional exponent. -/
def decimal? (cs : List Char) : Option Decimal := do
  let (whole, afterWhole) := takeDigits cs
  let (fraction, rest) := match afterWhole with
    | '.' :: more => takeDigits more
    | _ => ([], afterWhole)
  if whole.isEmpty && fraction.isEmpty then none
  else
    let digits ← digits? 10 (whole ++ fraction)
    let exponent ← exponent? rest
    return ⟨digits, exponent - fraction.length⟩

/-- The float nearest to a decimal.  Decimals of more than 310 places before the point
are beyond every float, and those below the 330th place after it round to zero, so the
powers of ten in between are all that is ever computed. -/
def nearest (d : Decimal) : Float :=
  let magnitude := Decimal.width d.digits + d.exponent
  if d.digits = 0 ∨ magnitude < -330 then 0.0
  else if 310 < magnitude then 1.0 / 0.0
  else Float.ofScientific d.digits (d.exponent < 0) d.exponent.natAbs

/-- The words that stand for a float, in lower case. -/
def word? (cs : List Char) : Option Float :=
  match String.ofList (cs.map Char.toLower) with
  | "inf" => some (1.0 / 0.0)
  | "infinity" => some (1.0 / 0.0)
  | "nan" => some (0.0 / 0.0)
  | _ => none

/-- A float: an optional sign, then a word or a decimal. -/
def readFloat? (cs : List Char) : Option Float :=
  let (negative, body) := splitSign cs
  let magnitude? := match word? body with
    | some x => some x
    | none => (decimal? body).map nearest
  magnitude?.map fun x => if negative then -x else x

end Numeral
end AdaptiveScript
