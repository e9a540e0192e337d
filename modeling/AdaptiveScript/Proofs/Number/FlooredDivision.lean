import AdaptiveScript.Proofs.Code.Boxed
import Mathlib.Data.Rat.Floor

/-!
# Floored division of integers

The hardware cuts quotients towards zero, and the integer kernel corrects quotient and
remainder by one step where the floor lies below.  Whether it does is read off two sign bits:
the remainder is not zero, and the exclusive or with the divisor is negative.  The quotient
looks at the sign of the dividend and the remainder at its own, which is the same sign.

`fdiv_eq_ite` and `fmod_eq_ite` are the two corrections over unbounded integers.  What is left
is that words do not get in their way.  The two terms of a corrected remainder have different
signs, so their sum is in range.  A corrected quotient is the floor, and the floor is in range
except for one pair of operands, where the quotient is exact and nothing is corrected.
-/

namespace AdaptiveScript

/-! ## Corrections over unbounded integers -/

theorem fdiv_eq_ite (a : Int) {b : Int} (hb : b ≠ 0) :
    a.fdiv b = if a.tmod b ≠ 0 ∧ ¬ (a < 0 ↔ b < 0) then a.tdiv b - 1 else a.tdiv b := by
  rw [Int.fdiv_eq_tdiv]
  by_cases hdvd : b ∣ a
  · simp [hdvd, Int.tmod_eq_zero_of_dvd hdvd]
  · have hmod : a.tmod b ≠ 0 := fun h => hdvd (Int.dvd_of_tmod_eq_zero h)
    simp only [hdvd, hmod, if_false, ne_eq, not_false_eq_true, true_and]
    rcases lt_or_gt_of_ne hb with hneg | hpos
    · rw [Int.sign_eq_neg_one_of_neg hneg]
      split_ifs <;> omega
    · rw [Int.sign_eq_one_of_pos hpos]
      split_ifs <;> omega

/-- A truncated remainder has the sign of the dividend. -/
theorem tmod_neg_iff {a b : Int} (h : a.tmod b ≠ 0) : a.tmod b < 0 ↔ a < 0 := by
  rcases le_or_gt 0 a with hnonneg | hneg
  · have := Int.tmod_nonneg b hnonneg
    omega
  · have := Int.tmod_nonneg b (Int.neg_nonneg_of_nonpos (Int.le_of_lt hneg))
    rw [Int.neg_tmod] at this
    omega

theorem fmod_eq_ite (a : Int) {b : Int} (hb : b ≠ 0) :
    a.fmod b = if a.tmod b ≠ 0 ∧ ¬ (a.tmod b < 0 ↔ b < 0) then a.tmod b + b else a.tmod b := by
  have hsame : (a.tmod b ≠ 0 ∧ ¬ (a.tmod b < 0 ↔ b < 0)) ↔
      (a.tmod b ≠ 0 ∧ ¬ (a < 0 ↔ b < 0)) :=
    and_congr_right fun h => by rw [tmod_neg_iff h]
  have hdiv := Int.mul_tdiv_add_tmod a b
  simp only [hsame]
  rw [Int.fmod_def, fdiv_eq_ite a hb]
  split_ifs
  · rw [Int.mul_sub, Int.mul_one]
    omega
  · omega

theorem fdiv_eq_floor (a b : Int) : a.fdiv b = ⌊(a : ℚ) / b⌋ := by
  have hnonneg {c d : Int} (hd : 0 ≤ d) : c.fdiv d = ⌊(c : ℚ) / d⌋ := by
    obtain ⟨n, rfl⟩ := Int.eq_ofNat_of_zero_le hd
    rw [Int.fdiv_eq_ediv_of_nonneg c hd]
    exact (Rat.floor_intCast_div_natCast c n).symm
  rcases le_total 0 b with hb | hb
  · exact hnonneg hb
  · simpa using hnonneg (c := -a) (d := -b) (Int.neg_nonneg_of_nonpos hb)

/-- A floored remainder lies between zero and the divisor. -/
theorem fmod_range (a b : Int) :
    (0 < b → 0 ≤ a.fmod b ∧ a.fmod b < b) ∧ (b < 0 → b < a.fmod b ∧ a.fmod b ≤ 0) := by
  refine ⟨fun h => ⟨Int.fmod_nonneg_of_pos a h, Int.fmod_lt_of_pos a h⟩, fun h => ?_⟩
  have hneg : 0 < -b := by omega
  have hlow := Int.fmod_nonneg_of_pos (-a) hneg
  have hhigh := Int.fmod_lt_of_pos (-a) hneg
  rw [Int.neg_fmod_neg] at hlow hhigh
  omega

/-! ## Words -/

/-- The sign bit of an exclusive or tells whether the signs differ. -/
theorem xor_lt_zero_iff (a b : Int64) : a ^^^ b < 0 ↔ ¬ (a.toInt < 0 ↔ b.toInt < 0) := by
  have hsign (c : Int64) : c.toBitVec.msb = decide (c.toInt < 0) := by
    rw [BitVec.msb_eq_toInt, Int64.toInt_toBitVec]
  have hxor : (a ^^^ b).toBitVec.msb = (a.toBitVec.msb ^^ b.toBitVec.msb) := by
    rw [Int64.toBitVec_xor, BitVec.msb_xor]
  rw [hsign, hsign, hsign] at hxor
  rw [Int64.lt_iff_toInt_lt, Int64.toInt_zero]
  by_cases ha : a.toInt < 0 <;> by_cases hb : b.toInt < 0 <;> simpa [ha, hb] using hxor

theorem toInt_ne_zero {b : Int64} (hb : b ≠ 0) : b.toInt ≠ 0 :=
  fun h => hb (Int64.toInt_inj.mp (h.trans Int64.toInt_zero.symm))

theorem mod_ne_zero_iff (a b : Int64) : a % b ≠ 0 ↔ a.toInt.tmod b.toInt ≠ 0 := by
  rw [ne_eq, ← Int64.toInt_inj, Int64.toInt_mod, Int64.toInt_zero]

/-- The floor of a quotient of words is a word, unless the least word is divided by minus
one. -/
theorem fdiv_in_range_iff (a : Int64) {b : Int64} (hb : b ≠ 0) :
    (-2 ^ 63 ≤ a.toInt.fdiv b.toInt ∧ a.toInt.fdiv b.toInt < 2 ^ 63) ↔
      ¬ (a = Int64.minValue ∧ b = -1) := by
  have hbound := Int.natAbs_fdiv_le_natAbs a.toInt b.toInt
  have hlow := a.le_toInt
  have hhigh := a.toInt_lt
  have hdiv := Int.mul_fdiv_add_fmod a.toInt b.toInt
  obtain ⟨hpos, hneg⟩ := fmod_range a.toInt b.toInt
  have hne := toInt_ne_zero hb
  rw [← Int64.toInt_inj, ← Int64.toInt_inj, Int64.toInt_minValue]
  have hone : (-1 : Int64).toInt = -1 := rfl
  rw [hone]
  constructor
  · rintro ⟨-, hlt⟩ ⟨ha, hb'⟩
    rw [ha, hb'] at hlt
    exact absurd hlt (by decide)
  · intro hother
    refine ⟨by omega, ?_⟩
    -- a quotient beyond the greatest word has the least word as its dividend
    by_contra hge
    have hquotient : a.toInt.fdiv b.toInt = 2 ^ 63 := by omega
    rw [hquotient] at hdiv
    exact hother (by omega)

/-- The corrected remainder of the kernel. -/
theorem intArith_mod (a : Int64) {b : Int64} (hb : b ≠ 0) :
    ∃ r, intArith .mod a b = .ok r ∧ r.toInt = a.toInt.fmod b.toInt ∧
      (a % b ≠ 0 ∧ (a % b) ^^^ b < 0 → (a % b + b).toInt = (a % b).toInt + b.toInt) := by
  have hne := toInt_ne_zero hb
  have hfmod := fmod_eq_ite a.toInt hne
  have htest : (a % b ≠ 0 ∧ (a % b) ^^^ b < 0) ↔
      (a.toInt.tmod b.toInt ≠ 0 ∧ ¬ (a.toInt.tmod b.toInt < 0 ↔ b.toInt < 0)) := by
    rw [mod_ne_zero_iff, xor_lt_zero_iff, Int64.toInt_mod]
  -- terms of different signs have a sum in range
  have hsum (h : a % b ≠ 0 ∧ (a % b) ^^^ b < 0) :
      (a % b + b).toInt = (a % b).toInt + b.toInt := by
    have hsigns := (xor_lt_zero_iff (a % b) b).mp h.2
    have hlow := (a % b).le_toInt
    have hhigh := (a % b).toInt_lt
    have hlow' := b.le_toInt
    have hhigh' := b.toInt_lt
    rw [Int64.toInt_add]
    exact Int.bmod_eq_of_le_mul_two (by omega) (by omega)
  simp only [intArith, if_neg hb]
  by_cases h : a % b ≠ 0 ∧ (a % b) ^^^ b < 0
  · rw [if_pos h]
    refine ⟨_, rfl, ?_, hsum⟩
    rw [hsum h, Int64.toInt_mod, hfmod, if_pos (htest.mp h)]
  · rw [if_neg h]
    refine ⟨_, rfl, ?_, hsum⟩
    rw [Int64.toInt_mod, hfmod, if_neg fun h' => h (htest.mpr h')]

/-- The corrected quotient of the kernel. -/
theorem intArith_floorDiv (a : Int64) {b : Int64} (hb : b ≠ 0) :
    ∃ q, intArith .floorDiv a b = .ok q ∧ q = Int64.ofInt (a.toInt.fdiv b.toInt) ∧
      (a % b ≠ 0 ∧ a ^^^ b < 0 → (a / b - 1).toInt = (a / b).toInt - 1) := by
  have hne := toInt_ne_zero hb
  have hfdiv := fdiv_eq_ite a.toInt hne
  have htest : (a % b ≠ 0 ∧ a ^^^ b < 0) ↔
      (a.toInt.tmod b.toInt ≠ 0 ∧ ¬ (a.toInt < 0 ↔ b.toInt < 0)) := by
    rw [mod_ne_zero_iff, xor_lt_zero_iff]
  have hquotient : a / b = Int64.ofInt (a.toInt.tdiv b.toInt) := by
    rw [eq_comm, Int64.ofInt_eq_iff_bmod_eq_toInt, Int64.toInt_div]
  -- a remainder is left over, so the divisor is not minus one and the floor is in range
  have hstep (h : a % b ≠ 0 ∧ a ^^^ b < 0) : (a / b - 1).toInt = (a / b).toInt - 1 := by
    have hexact : b ≠ -1 := by
      intro heq
      rw [heq] at h
      refine (mod_ne_zero_iff a (-1)).mp h.1 ?_
      exact (Int.tmod_neg a.toInt 1).trans (Int.tmod_one a.toInt)
    have hrange := (fdiv_in_range_iff a hb).mpr fun hmin => hexact hmin.2
    rw [hfdiv, if_pos (htest.mp h), ← Int64.toInt_div_of_ne_right a b hexact] at hrange
    have hone : (1 : Int64).toInt = 1 := rfl
    rw [Int64.toInt_sub, hone]
    exact Int.bmod_eq_of_le_mul_two (by omega) (by omega)
  simp only [intArith, if_neg hb]
  by_cases h : a % b ≠ 0 ∧ a ^^^ b < 0
  · rw [if_pos h]
    refine ⟨_, rfl, ?_, hstep⟩
    rw [hfdiv, if_pos (htest.mp h), hquotient, Int64.ofInt_sub]
    rfl
  · rw [if_neg h]
    refine ⟨_, rfl, ?_, hstep⟩
    rw [hfdiv, if_neg fun h' => h (htest.mpr h'), hquotient]

/-- **Integer arithmetic.**  Sums, differences and products are the exact ones, reduced to 64
bits.  Division by zero is an error.  Otherwise the quotient is the floor of the exact one, which
does not fit into 64 bits in one case only; the remainder is what the floor leaves, so it lies
between zero and the divisor; the two put the dividend together again; and the corrections by
which the kernel finds them do not overflow. -/
theorem intArith_floored (a b : Int64) :
    (∀ op : BinOp, op.hasIntKernel = true →
      binary op (.int a) (.int b) = (intArith op a b).map Value.int) ∧
    intArith .add a b = .ok (Int64.ofInt (a.toInt + b.toInt)) ∧
    intArith .sub a b = .ok (Int64.ofInt (a.toInt - b.toInt)) ∧
    intArith .mul a b = .ok (Int64.ofInt (a.toInt * b.toInt)) ∧
    (b = 0 → intArith .mod a b = .error (.zeroDivision .modulo) ∧
      intArith .floorDiv a b = .error (.zeroDivision .floorDivision)) ∧
    (b ≠ 0 → ∃ q r : Int64, intArith .floorDiv a b = .ok q ∧ intArith .mod a b = .ok r ∧
      q = Int64.ofInt ⌊(a.toInt : ℚ) / b.toInt⌋ ∧
      (q.toInt = ⌊(a.toInt : ℚ) / b.toInt⌋ ↔ ¬ (a = Int64.minValue ∧ b = -1)) ∧
      r.toInt = a.toInt - b.toInt * ⌊(a.toInt : ℚ) / b.toInt⌋ ∧
      (0 < b → 0 ≤ r.toInt ∧ r.toInt < b.toInt) ∧ (b < 0 → b.toInt < r.toInt ∧ r.toInt ≤ 0) ∧
      a = b * q + r ∧
      (a % b ≠ 0 ∧ (a % b) ^^^ b < 0 → (a % b + b).toInt = (a % b).toInt + b.toInt) ∧
      (a % b ≠ 0 ∧ a ^^^ b < 0 → (a / b - 1).toInt = (a / b).toInt - 1)) := by
  refine ⟨fun op hop => binary_intArith hop a b, ?_, ?_, ?_,
    fun hb => ⟨if_pos hb, if_pos hb⟩, fun hb => ?_⟩
  · rw [Int64.ofInt_add, Int64.ofInt_toInt, Int64.ofInt_toInt]
    rfl
  · rw [Int64.ofInt_sub, Int64.ofInt_toInt, Int64.ofInt_toInt]
    rfl
  · rw [Int64.ofInt_mul, Int64.ofInt_toInt, Int64.ofInt_toInt]
    rfl
  · obtain ⟨q, hq, hfloor, hstep⟩ := intArith_floorDiv a hb
    obtain ⟨r, hr, hfmod, hsum⟩ := intArith_mod a hb
    obtain ⟨hpos, hneg⟩ := fmod_range a.toInt b.toInt
    rw [← hfmod] at hpos hneg
    rw [← fdiv_eq_floor, Int64.lt_iff_toInt_lt, Int64.lt_iff_toInt_lt (x := b), Int64.toInt_zero]
    refine ⟨q, r, hq, hr, hfloor, ?_, ?_, hpos, hneg, ?_, hsum, hstep⟩
    · rw [← fdiv_in_range_iff a hb]
      constructor
      · intro heq
        rw [← heq]
        exact ⟨q.le_toInt, q.toInt_lt⟩
      · intro hrange
        rw [hfloor, Int64.toInt_ofInt_of_le hrange.1 hrange.2]
    · rw [hfmod, Int.fmod_def]
    · -- the equation over unbounded integers, reduced to words
      have hexact := congrArg Int64.ofInt (Int.mul_fdiv_add_fmod a.toInt b.toInt)
      rw [Int64.ofInt_add, Int64.ofInt_mul, Int64.ofInt_toInt, Int64.ofInt_toInt, ← hfloor,
        ← hfmod, Int64.ofInt_toInt] at hexact
      exact hexact.symm

/-- The quotient of the least integer by minus one is the only one that wraps around.  A negative
dividend has a positive remainder by a positive divisor. -/
theorem intArith_floored_negative :
    ((-1 : Int64) ≠ 0 ∧ ∃ q, intArith .floorDiv Int64.minValue (-1) = .ok q ∧
      q = Int64.minValue ∧ q.toInt ≠ ⌊(Int64.minValue.toInt : ℚ) / (-1 : Int64).toInt⌋) ∧
    (3 : Int64) ≠ 0 ∧ ∃ r, intArith .mod (-7) 3 = .ok r ∧ r = 2 ∧ 0 ≤ r.toInt := by
  obtain ⟨-, -, -, -, -, hleast⟩ := intArith_floored Int64.minValue (-1)
  obtain ⟨-, -, -, -, -, hseven⟩ := intArith_floored (-7) 3
  obtain ⟨q, r, hq, -, -, hwraps, -⟩ := hleast (by decide)
  obtain ⟨-, r', -, hr', -, -, -, hpos, -⟩ := hseven (by decide)
  have hq' : q = Int64.minValue := by
    rw [show intArith .floorDiv Int64.minValue (-1) = .ok Int64.minValue from by decide] at hq
    exact (Except.ok.inj hq).symm
  have hr'' : r' = 2 := by
    rw [show intArith .mod (-7) 3 = .ok 2 from by decide] at hr'
    exact (Except.ok.inj hr').symm
  exact ⟨⟨by decide, q, hq, hq', fun h => hwraps.mp h ⟨rfl, rfl⟩⟩, by decide, r', hr', hr'',
    (hpos (by decide)).1⟩

end AdaptiveScript
