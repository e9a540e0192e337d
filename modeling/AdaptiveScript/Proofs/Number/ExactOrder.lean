import AdaptiveScript.Proofs.Code.Boxed
import AdaptiveScript.Proofs.Number.Reading
import Mathlib.Data.Rat.Cast.Order
import Mathlib.Order.WithBot
import Mathlib.Tactic.NormNum

/-!
# Comparisons are exact

A number of the language denotes a rational number or an infinity, and NaN denotes nothing.  The
rational number of a float is put together here from the fields of its word, as
`± significand * 2 ^ (place - 1074)`, and not from the count of units that comparisons work with.

A comparison of two numbers, of whichever kinds, holds if it holds of what they denote
(`binary_of_number?`).  So on numbers other than NaN equality is an equivalence and the order is
total: both are pulled back from the rational numbers with two ends.
-/

namespace AdaptiveScript
namespace Binary64

/-- The rational numbers with an infinity at either end. -/
abbrev Extended := WithBot (WithTop ℚ)

/-! ## What words denote -/

/-- The rational number of a finite word. -/
def rational (x : Float) : ℚ :=
  (if isNegative x then -1 else 1) * (significand x * 2 ^ ((place x : ℤ) - 1074))

/-- The number that a word denotes; NaN denotes none. -/
def number? (x : Float) : Option Extended :=
  if exponentField x = 2047 then
    if fractionField x ≠ 0 then none
    else if isNegative x then some ⊥ else some ⊤
  else some ((rational x : WithTop ℚ) : Extended)

/-- A count of units as a rational number. -/
def ofUnits (units : Int) : Extended :=
  (((units : ℚ) / unitsPerOne : ℚ) : WithTop ℚ)

theorem ofUnits_lt {a b : Int} (h : a < b) : ofUnits a < ofUnits b := by
  have hpos : (0 : ℚ) < unitsPerOne := Int.cast_pos.mpr unitsPerOne_pos
  unfold ofUnits
  rw [WithBot.coe_lt_coe, WithTop.coe_lt_coe, div_lt_div_iff_of_pos_right hpos]
  exact Int.cast_lt.mpr h

theorem compare_ofUnits (a b : Int) : compare (ofUnits a) (ofUnits b) = compare a b := by
  rcases Int.lt_trichotomy a b with h | rfl | h
  · rw [Int.compare_eq_lt.mpr h]
    exact compare_lt_iff_lt.mpr (ofUnits_lt h)
  · rw [Int.compare_eq_eq.mpr rfl]
    exact compare_eq_iff_eq.mpr rfl
  · rw [Int.compare_eq_gt.mpr h]
    exact compare_gt_iff_gt.mpr (ofUnits_lt h)

/-- An integer denotes itself. -/
theorem ofUnits_mul (n : Int) : ofUnits (n * unitsPerOne) = ((n : ℚ) : WithTop ℚ) := by
  have hne : (unitsPerOne : ℚ) ≠ 0 := ne_of_gt (Int.cast_pos.mpr unitsPerOne_pos)
  rw [ofUnits, Int.cast_mul, mul_div_cancel_right₀ _ hne]

theorem cast_shiftLeft (m k : Nat) : ((m <<< k : Nat) : ℚ) = m * 2 ^ (k : ℤ) := by
  rw [Nat.shiftLeft_eq, Nat.cast_mul, Nat.cast_pow, zpow_natCast, Nat.cast_ofNat]

theorem cast_unitsPerOne : (unitsPerOne : ℚ) = 2 ^ (1074 : ℤ) := by
  rw [unitsPerOne, Int.cast_natCast, cast_shiftLeft, Nat.cast_one, one_mul]
  rfl

theorem ofUnits_magnitude (x : Float) :
    ofUnits (if isNegative x then -(magnitude x : Int) else magnitude x) =
      ((rational x : WithTop ℚ) : Extended) := by
  have hmagnitude : ((magnitude x : ℤ) : ℚ) / unitsPerOne =
      significand x * 2 ^ ((place x : ℤ) - 1074) := by
    rw [cast_unitsPerOne, zpow_sub₀ two_ne_zero, ← mul_div_assoc, magnitude, Int.cast_natCast,
      cast_shiftLeft]
  rw [ofUnits, rational, ← hmagnitude]
  split
  · rw [Int.cast_neg, neg_div, neg_one_mul]
  · rw [one_mul]

namespace Reading

/-- The number of a reading. -/
def number? : Reading → Option Extended
  | .nan => none
  | .negInfinity => some ⊥
  | .finite units => some (ofUnits units)
  | .posInfinity => some ⊤

/-- Readings are in the order of their numbers. -/
theorem order_of_number? {r s : Reading} {x y : Extended} (hr : r.number? = some x)
    (hs : s.number? = some y) : r.order s = some (compare x y) := by
  have hbot (units : Int) : (⊥ : Extended) < ofUnits units := WithBot.bot_lt_coe _
  have htop (units : Int) : ofUnits units < (⊤ : Extended) :=
    WithBot.coe_lt_coe.mpr (WithTop.coe_lt_top _)
  have hends : (⊥ : Extended) < ⊤ := WithBot.bot_lt_coe _
  cases r with
  | nan => cases hr
  | negInfinity =>
    cases hr
    cases s with
    | nan => cases hs
    | negInfinity => cases hs; exact congrArg some (compare_eq_iff_eq.mpr rfl).symm
    | finite units => cases hs; exact congrArg some (compare_lt_iff_lt.mpr (hbot units)).symm
    | posInfinity => cases hs; exact congrArg some (compare_lt_iff_lt.mpr hends).symm
  | finite a =>
    cases hr
    cases s with
    | nan => cases hs
    | negInfinity => cases hs; exact congrArg some (compare_gt_iff_gt.mpr (hbot a)).symm
    | finite b =>
      cases hs
      exact congrArg some (compare_ofUnits a b).symm
    | posInfinity => cases hs; exact congrArg some (compare_lt_iff_lt.mpr (htop a)).symm
  | posInfinity =>
    cases hr
    cases s with
    | nan => cases hs
    | negInfinity => cases hs; exact congrArg some (compare_gt_iff_gt.mpr hends).symm
    | finite units => cases hs; exact congrArg some (compare_gt_iff_gt.mpr (htop units)).symm
    | posInfinity => cases hs; exact congrArg some (compare_eq_iff_eq.mpr rfl).symm

/-- Without a number there is no order. -/
theorem order_of_none {r s : Reading} (h : r.number? = none ∨ s.number? = none) :
    r.order s = none := by
  cases r <;> cases s <;> simp [number?] at h <;> rfl

theorem map_swap_order (r s : Reading) : (r.order s).map Ordering.swap = s.order r := by
  cases r <;> cases s <;> try rfl
  case finite.finite a b => exact congrArg some (Std.OrientedCmp.eq_swap.symm)

end Reading

/-- The fields of a word tell the number of its reading. -/
theorem number?_reading (x : Float) : (reading x).number? = number? x := by
  unfold number? reading
  split
  · split
    · rfl
    · split <;> rfl
  · exact congrArg some (ofUnits_magnitude x)

end Binary64

open Binary64 (Extended)

/-! ## What numbers denote -/

namespace Value

/-- The number that a value denotes.  NaN denotes none, and neither do values of other kinds. -/
def number? : Value → Option Extended
  | .int n => some ((n.toInt : ℚ) : WithTop ℚ)
  | .float x => Binary64.number? x
  | _ => none

/-- How comparisons read a number. -/
def reading : Value → Binary64.Reading
  | .int n => .ofInt n.toInt
  | .float x => Binary64.reading x
  | _ => .nan

theorem number?_reading (a : Value) : a.reading.number? = a.number? := by
  cases a with
  | int n => exact congrArg some (Binary64.ofUnits_mul n.toInt)
  | float x => exact Binary64.number?_reading x
  | _ => rfl

end Value

/-- A comparison operator as a relation between what numbers denote. -/
def BinOp.Relates (op : BinOp) (x y : Extended) : Prop :=
  match op with
  | .eq => x = y
  | .ne => x ≠ y
  | .lt => x < y
  | .le => x ≤ y
  | .gt => y < x
  | .ge => y ≤ x
  | _ => False

instance (op : BinOp) (x y : Extended) : Decidable (op.Relates x y) :=
  match op with
  | .eq => inferInstanceAs (Decidable (x = y))
  | .ne => inferInstanceAs (Decidable (x ≠ y))
  | .lt => inferInstanceAs (Decidable (x < y))
  | .le => inferInstanceAs (Decidable (x ≤ y))
  | .gt => inferInstanceAs (Decidable (y < x))
  | .ge => inferInstanceAs (Decidable (y ≤ x))
  | .add | .sub | .mul | .div | .mod | .pow | .floorDiv | .concat =>
    inferInstanceAs (Decidable False)

theorem BinOp.holds_compare (op : BinOp) (x y : Extended) :
    op.holds (compare x y) = decide (op.Relates x y) := by
  rw [Bool.eq_iff_iff, decide_eq_true_iff]
  rcases lt_trichotomy x y with h | h | h
  · rw [compare_lt_iff_lt.mpr h]
    cases op <;> simp [holds, Relates, h, h.ne, h.le, h.not_gt, h.not_ge]
  · rw [compare_eq_iff_eq.mpr h]
    cases op <;> simp [holds, Relates, h]
  · rw [compare_gt_iff_gt.mpr h]
    cases op <;> simp [holds, Relates, h, h.ne', h.le, h.not_gt, h.not_ge]

/-- Comparisons of numbers go by the order of their readings. -/
theorem binary_reading {op : BinOp} (hop : op.isComparison = true) {a b : Value}
    (ha : a.isNumber = true) (hb : b.isNumber = true) :
    binary op a b = .ok (.bool (op.holdsPartial (a.reading.order b.reading))) := by
  cases a with
  | int n =>
    cases b with
    | int k =>
      have horder : (Value.int n).reading.order (Value.int k).reading =
          some (compare n.toInt k.toInt) := by
        have hmono : StrictMono fun n : Int => n * Binary64.unitsPerOne :=
          fun _ _ h => Int.mul_lt_mul_of_pos_right h Binary64.unitsPerOne_pos
        refine congrArg some ?_
        rw [← cmp_eq_compare, ← cmp_eq_compare, hmono.cmp_map_eq]
      rw [binary_int_int hop, horder]
      rfl
    | float y => rw [binary_int_float hop, Binary64.intOrder_eq]; rfl
    | _ => cases hb
  | float x =>
    cases b with
    | int k => rw [binary_float_int hop, Binary64.intOrder_eq, Binary64.Reading.map_swap_order]; rfl
    | float y => exact binary_float_float hop x y
    | _ => cases hb
  | _ => cases ha

/-- The comparison operators that order their operands. -/
def BinOp.orders : List BinOp := [.lt, .le, .gt, .ge]

theorem BinOp.mem_orders {op : BinOp} :
    op ∈ BinOp.orders ↔ op = .lt ∨ op = .le ∨ op = .gt ∨ op = .ge := by
  simp [BinOp.orders]

/-- What the operator gives is what the two kernels give. -/
theorem kernels_of_binary {a b : Value} {answer : BinOp → Bool}
    (h : ∀ op : BinOp, op.isComparison = true → binary op a b = .ok (.bool (answer op))) :
    (∀ op ∈ BinOp.orders, compareValues op a b = .ok (answer op)) ∧ a.equals b = answer .eq := by
  constructor
  · intro op hop
    have hbinary : binary op a b = (compareValues op a b).map Value.bool ∧
        op.isComparison = true := by
      rcases BinOp.mem_orders.mp hop with rfl | rfl | rfl | rfl <;> exact ⟨rfl, rfl⟩
    have hanswer := h op hbinary.2
    rw [hbinary.1] at hanswer
    cases hcompare : compareValues op a b with
    | error e => rw [hcompare] at hanswer; cases hanswer
    | ok v => rw [hcompare] at hanswer; cases hanswer; rfl
  · exact Value.bool.inj (Except.ok.inj (h .eq rfl))

theorem binary_of_number? {a b : Value} (ha : a.isNumber = true) (hb : b.isNumber = true)
    {x y : Extended} (hx : a.number? = some x) (hy : b.number? = some y) (op : BinOp)
    (hop : op.isComparison = true) : binary op a b = .ok (.bool (decide (op.Relates x y))) := by
  rw [← Value.number?_reading] at hx hy
  rw [binary_reading hop ha hb, Binary64.Reading.order_of_number? hx hy, ← op.holds_compare x y]
  rfl

theorem binary_of_none {a b : Value} (ha : a.isNumber = true) (hb : b.isNumber = true)
    (h : a.number? = none ∨ b.number? = none) (op : BinOp) (hop : op.isComparison = true) :
    binary op a b = .ok (.bool (op == .ne)) := by
  rw [← Value.number?_reading, ← Value.number?_reading] at h
  rw [binary_reading hop ha hb, Binary64.Reading.order_of_none h]
  rfl

/-! ## The order of numbers -/

/-- The numbers other than NaN. -/
def Comparable := { a : Value // a.number? ≠ none }

namespace Comparable

/-- The operator `==` finds two numbers equal. -/
def Equal (a b : Comparable) : Prop :=
  binary .eq a.1 b.1 = .ok (.bool true)

/-- The operator `<` finds one number less than another. -/
def Less (a b : Comparable) : Prop :=
  binary .lt a.1 b.1 = .ok (.bool true)

/-- What a number other than NaN denotes. -/
def number (a : Comparable) : Extended :=
  a.1.number?.get (Option.isSome_iff_ne_none.mpr a.2)

theorem number?_eq (a : Comparable) : a.1.number? = some a.number :=
  (Option.some_get _).symm

theorem isNumber (a : Comparable) : a.1.isNumber = true := by
  obtain ⟨a, ha⟩ := a
  cases a <;> first | rfl | exact absurd rfl ha

theorem equal_iff (a b : Comparable) : a.Equal b ↔ a.number = b.number := by
  rw [Equal, binary_of_number? a.isNumber b.isNumber a.number?_eq b.number?_eq .eq rfl]
  simp only [Except.ok.injEq, Value.bool.injEq, decide_eq_true_eq]
  rfl

theorem less_iff (a b : Comparable) : a.Less b ↔ a.number < b.number := by
  rw [Less, binary_of_number? a.isNumber b.isNumber a.number?_eq b.number?_eq .lt rfl]
  simp only [Except.ok.injEq, Value.bool.injEq, decide_eq_true_eq]
  rfl

end Comparable

open Comparable in
/-- **Comparisons of numbers are exact.**  Whatever kinds two numbers are of, a comparison operator
decides the relation between the numbers that they denote, and so do the kernels of equality and
order.  If one of them is NaN, they are different and no other comparison holds.  So on numbers
other than NaN equality is an equivalence, and the order is a strict total order up to it. -/
theorem comparisons_exact :
    (∀ a b : Value, a.isNumber = true → b.isNumber = true →
      (∀ x y : Extended, a.number? = some x → b.number? = some y →
        (∀ op : BinOp, op.isComparison = true →
          binary op a b = .ok (.bool (decide (op.Relates x y)))) ∧
        (∀ op ∈ BinOp.orders, compareValues op a b = .ok (decide (op.Relates x y))) ∧
        a.equals b = decide (x = y)) ∧
      (a.number? = none ∨ b.number? = none →
        (∀ op : BinOp, op.isComparison = true → binary op a b = .ok (.bool (op == .ne))) ∧
        (∀ op ∈ BinOp.orders, compareValues op a b = .ok false) ∧ a.equals b = false)) ∧
    Equivalence Equal ∧
    (∀ a, ¬ Less a a) ∧ (∀ a b c, Less a b → Less b c → Less a c) ∧
    (∀ a b, (Less a b ∧ ¬ Equal a b ∧ ¬ Less b a) ∨ (¬ Less a b ∧ Equal a b ∧ ¬ Less b a) ∨
      (¬ Less a b ∧ ¬ Equal a b ∧ Less b a)) ∧
    ∀ a a' b b', Equal a a' → Equal b b' → (Less a b ↔ Less a' b') := by
  refine ⟨fun a b ha hb => ⟨fun x y hx hy => ?_, fun h => ?_⟩, ?_, ?_, ?_, ?_, ?_⟩
  · have hall := binary_of_number? ha hb hx hy
    obtain ⟨horders, hequals⟩ := kernels_of_binary hall
    exact ⟨hall, horders, by rw [hequals]; rfl⟩
  · have hall := binary_of_none ha hb h
    obtain ⟨horders, hequals⟩ := kernels_of_binary hall
    refine ⟨hall, fun op hop => ?_, hequals⟩
    rw [horders op hop]
    rcases BinOp.mem_orders.mp hop with rfl | rfl | rfl | rfl <;> rfl
  · refine ⟨fun a => ?_, fun {a b} h => ?_, fun {a b c} hab hbc => ?_⟩
    · rw [equal_iff]
    · rw [equal_iff] at h ⊢
      exact h.symm
    · rw [equal_iff] at hab hbc ⊢
      exact hab.trans hbc
  · intro a
    rw [less_iff]
    exact lt_irrefl _
  · intro a b c hab hbc
    rw [less_iff] at hab hbc ⊢
    exact hab.trans hbc
  · intro a b
    simp only [less_iff, equal_iff]
    rcases lt_trichotomy a.number b.number with h | h | h
    · exact .inl ⟨h, h.ne, h.not_gt⟩
    · exact .inr (.inl ⟨h.not_lt, h, h.not_gt⟩)
    · exact .inr (.inr ⟨h.not_gt, h.ne', h⟩)
  · intro a a' b b' ha hb
    rw [equal_iff] at ha hb
    rw [less_iff, less_iff, ha, hb]

/-- `2 ^ 53` as a float is less than the integer after it, which no float denotes. -/
theorem comparisons_exact_past_float_precision :
    binary .lt (.float (Float.ofBits 0x4340000000000000)) (.int 9007199254740993) =
      .ok (.bool true) := by
  have hfloat : (Value.float (Float.ofBits 0x4340000000000000)).number? =
      some ((9007199254740992 : ℚ) : WithTop ℚ) := by
    have hexponent : Binary64.exponentField (Float.ofBits 0x4340000000000000) = 1076 := by
      decide +kernel
    have hsign : Binary64.isNegative (Float.ofBits 0x4340000000000000) = false := by decide +kernel
    have hsignificand : Binary64.significand (Float.ofBits 0x4340000000000000) = 2 ^ 52 := by
      decide +kernel
    have hplace : Binary64.place (Float.ofBits 0x4340000000000000) = 1075 := by decide +kernel
    have hrational : Binary64.rational (Float.ofBits 0x4340000000000000) = 9007199254740992 := by
      rw [Binary64.rational, hsign, hsignificand, hplace]
      norm_num
    rw [Value.number?, Binary64.number?, hexponent, hrational]
    rfl
  have hless := ((comparisons_exact.1 _ (.int 9007199254740993) rfl rfl).1 _ _ hfloat rfl).1 .lt rfl
  have hbetween : (9007199254740992 : ℚ) < (9007199254740993 : ℤ) := by norm_num
  rw [hless, decide_eq_true_iff.mpr]
  exact WithBot.coe_lt_coe.mpr (WithTop.coe_lt_coe.mpr hbetween)

end AdaptiveScript
