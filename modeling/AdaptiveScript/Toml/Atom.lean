import AdaptiveScript.Number.Numeral
import AdaptiveScript.Toml.Node

/-!
# Numbers, dates and truth values of TOML

An atom is a value without quotes or brackets.  Of the atoms only integers are kept; all
others are checked for their form.
-/

namespace AdaptiveScript
namespace Toml

/-- Digits of a radix, underscores standing between digits only. -/
def digits? (radix : Nat) (cs : List Char) : Option Nat :=
  match cs with
  | [] => none
  | _ =>
    let groups := cs.splitOn '_'
    if groups.any List.isEmpty then none else Numeral.digits? radix groups.flatten

/-- A decimal integer without sign; no zero stands in front of other digits. -/
def decimal? (cs : List Char) : Option Nat :=
  match cs with
  | '0' :: _ :: _ => none
  | _ => digits? 10 cs

/-- An integer.  Only decimal ones may have a sign. -/
def integer? : List Char → Option Int
  | '0' :: 'x' :: cs => (digits? 16 cs).map Int.ofNat
  | '0' :: 'o' :: cs => (digits? 8 cs).map Int.ofNat
  | '0' :: 'b' :: cs => (digits? 2 cs).map Int.ofNat
  | '-' :: cs => (decimal? cs).map fun n => -(n : Int)
  | '+' :: cs => (decimal? cs).map Int.ofNat
  | cs => (decimal? cs).map Int.ofNat

/-- Whether a text is an exponent after its mark. -/
def isExponent (cs : List Char) : Bool :=
  (digits? 10 (Numeral.splitSign cs).2).isSome

/-- Whether the float nearest to a decimal is finite.  Underscores do not count. -/
def isInRange (cs : List Char) : Bool :=
  match Numeral.decimal? (cs.filter (· != '_')) with
  | some d => decide (Binary64.reading (Numeral.nearest d) ≠ .posInfinity)
  | none => false

/-- Whether a text is a float: digits with a fraction, an exponent or both, not too large
for a float, or one of the two words. -/
def isFloat (cs : List Char) : Bool :=
  let body := (Numeral.splitSign cs).2
  let isMark := fun c : Char => c == 'e' || c == 'E'
  let mantissa := body.takeWhile fun c => !isMark c
  let exponent := body.dropWhile fun c => !isMark c
  let whole := mantissa.takeWhile (· != '.')
  let fraction := mantissa.dropWhile (· != '.')
  body == "inf".toList || body == "nan".toList
    || ((decimal? whole).isSome && (!fraction.isEmpty || !exponent.isEmpty)
      && (fraction.isEmpty || (digits? 10 fraction.tail).isSome)
      && (exponent.isEmpty || isExponent exponent.tail) && isInRange body)

/-! ## Dates and times -/

/-- A number of exactly `width` digits between two bounds. -/
def field? (width low high : Nat) (cs : List Char) : Option (Nat × List Char) := do
  let digits := cs.take width
  let n ← if digits.length = width then Numeral.digits? 10 digits else none
  if low ≤ n ∧ n ≤ high then some (n, cs.drop width) else none

/-- How many days a month has. -/
def daysIn (year month : Nat) : Nat :=
  if month = 2 then
    if year % 4 = 0 ∧ (year % 100 ≠ 0 ∨ year % 400 = 0) then 29 else 28
  else if month = 4 ∨ month = 6 ∨ month = 9 ∨ month = 11 then 30
  else 31

/-- The text after a date. -/
def afterDate? (cs : List Char) : Option (List Char) := do
  let (year, rest) ← field? 4 0 9999 cs
  let '-' :: rest := rest | none
  let (month, rest) ← field? 2 1 12 rest
  let '-' :: rest := rest | none
  let (_, rest) ← field? 2 1 (daysIn year month) rest
  return rest

/-- The text after the fraction of a second. -/
def afterFraction? : List Char → Option (List Char)
  | '.' :: rest => if (rest.takeWhile Char.isDigit).isEmpty then none
    else some (rest.dropWhile Char.isDigit)
  | rest => some rest

/-- The text after a time of day.  Seconds may be left out. -/
def afterTime? (cs : List Char) : Option (List Char) := do
  let (_, rest) ← field? 2 0 23 cs
  let ':' :: rest := rest | none
  let (_, rest) ← field? 2 0 59 rest
  match rest with
  | ':' :: rest =>
    let (_, rest) ← field? 2 0 60 rest
    afterFraction? rest
  | rest => return rest

/-- Whether a text is the offset of a time, or nothing. -/
def isOffset (cs : List Char) : Bool :=
  match cs with
  | [] => true
  | ['Z'] => true
  | ['z'] => true
  | sign :: rest =>
    (sign == '+' || sign == '-') &&
      match (do
        let (_, rest) ← field? 2 0 23 rest
        let ':' :: rest := rest | none
        let (_, rest) ← field? 2 0 59 rest
        return rest.isEmpty : Option Bool) with
      | some b => b
      | none => false

/-- Whether a text is a date, a time of day, or both with an optional offset. -/
def isDateTime (cs : List Char) : Bool :=
  match afterDate? cs with
  | some [] => true
  | some (mark :: rest) =>
    (mark == 'T' || mark == 't' || mark == ' ') &&
      match afterTime? rest with
      | some offset => isOffset offset
      | none => false
  | none => afterTime? cs == some []

/-! ## Atoms -/

/-- Characters of an atom. -/
def isAtomChar (c : Char) : Bool :=
  c.isAlphanum || c == '_' || c == '+' || c == '-' || c == '.' || c == ':'

/-- The longest atom at the front of a text.  A date and a time may be separated by one
blank. -/
def atomLength (cs : List Char) : Nat :=
  let first := cs.takeWhile isAtomChar
  match afterDate? first, cs.drop first.length with
  | some [], ' ' :: d :: rest =>
    if d.isDigit then first.length + 1 + ((d :: rest).takeWhile isAtomChar).length
    else first.length
  | _, _ => first.length

/-- What an atom stands for.  Integers of more than 128 bits are refused. -/
def atom? (cs : List Char) : Option Node :=
  match integer? cs with
  | some n => if -(1 <<< 127 : Nat) ≤ n ∧ n < (1 <<< 128 : Nat) then some (.integer n) else none
  | none =>
    if cs == "true".toList || cs == "false".toList || isFloat cs || isDateTime cs
    then some .scalar else none

end Toml
end AdaptiveScript
