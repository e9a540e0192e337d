import AdaptiveScript.Number.Binary64

/-!
# Words and the numbers they denote

A binary64 word is a sign and sixty-three further bits, and the further bits alone decide the
magnitude.  Read as a number they grow with the magnitude, although the magnitude itself is
put together from two fields: the least significand under one exponent exceeds the greatest
one under the exponent before.  So two words that denote the same number are the same word,
unless the number is zero, which has two (`toBits_eq_of_reading_eq`).

The second half is about whole numbers: which integers a float is (`isIntegral_iff`), and
which integers lie on one side of it (`le_floor_iff`, `ceil_le_iff`).
-/

namespace AdaptiveScript
namespace Binary64

/-! ## Magnitudes -/

/-- The magnitude of a finite word, as a count of units. -/
def magnitude (x : Float) : Nat :=
  significand x <<< place x

/-- All bits but the sign. -/
def unsigned (x : Float) : Nat :=
  x.toBits.toNat % (1 <<< 63)

theorem fractionField_lt (x : Float) : fractionField x < 1 <<< 52 :=
  Nat.mod_lt _ (by decide)

theorem unsigned_eq (x : Float) : unsigned x = exponentField x * (1 <<< 52) + fractionField x := by
  unfold unsigned exponentField fractionField
  simp only [Nat.reduceShiftLeft, Nat.shiftRight_eq_div_pow, Nat.reducePow]
  omega

theorem toNat_toBits (x : Float) :
    x.toBits.toNat = (if isNegative x then 1 <<< 63 else 0) + unsigned x := by
  have hlt := x.toBits.toNat_lt
  simp only [isNegative, unsigned, Nat.reduceShiftLeft, decide_eq_true_eq]
  split <;> omega

/-- A magnitude lies below the least magnitude under the next exponent. -/
theorem magnitude_lt (x : Float) : magnitude x < (1 <<< 52) <<< exponentField x := by
  have hfraction := fractionField_lt x
  unfold magnitude significand place
  rw [Nat.shiftLeft_eq _ (exponentField x - 1), Nat.shiftLeft_eq _ (exponentField x)]
  split
  · next hzero =>
    rw [hzero]
    simpa using hfraction
  · next hpos =>
    have hpow : 2 ^ exponentField x = 2 * 2 ^ (exponentField x - 1) := by
      rw [← Nat.pow_succ']
      congr 1
      omega
    rw [hpow, Nat.mul_left_comm, ← Nat.mul_assoc]
    exact Nat.mul_lt_mul_of_pos_right (by omega) (Nat.two_pow_pos _)

/-- Under an exponent that is not zero, magnitudes have a least one. -/
theorem le_magnitude {x : Float} (h : exponentField x ≠ 0) :
    (1 <<< 52) <<< (exponentField x - 1) ≤ magnitude x := by
  unfold magnitude significand place
  rw [if_neg h, Nat.shiftLeft_eq _ (exponentField x - 1), Nat.shiftLeft_eq _ (exponentField x - 1)]
  exact Nat.mul_le_mul_right _ (Nat.le_add_right _ _)

/-- Magnitudes grow with the bits. -/
theorem magnitude_lt_of_unsigned_lt {x y : Float} (h : unsigned x < unsigned y) :
    magnitude x < magnitude y := by
  have hx := fractionField_lt x
  have hy := fractionField_lt y
  rw [unsigned_eq, unsigned_eq] at h
  have hle : exponentField x ≤ exponentField y := by omega
  rcases Nat.lt_or_eq_of_le hle with hlt | heq
  · -- the least magnitude under the greater exponent separates the two
    calc magnitude x < (1 <<< 52) <<< exponentField x := magnitude_lt x
      _ ≤ (1 <<< 52) <<< (exponentField y - 1) := by
        rw [Nat.shiftLeft_eq _ (exponentField x), Nat.shiftLeft_eq _ (exponentField y - 1)]
        exact Nat.mul_le_mul_left _ (Nat.pow_le_pow_right Nat.two_pos (by omega))
      _ ≤ magnitude y := le_magnitude (by omega)
  · have hfraction : fractionField x < fractionField y := by
      rw [heq] at h
      omega
    unfold magnitude significand place
    rw [heq, Nat.shiftLeft_eq _ (exponentField y - 1), Nat.shiftLeft_eq _ (exponentField y - 1)]
    refine Nat.mul_lt_mul_of_pos_right ?_ (Nat.two_pow_pos _)
    split <;> omega

theorem unsigned_eq_of_magnitude_eq {x y : Float} (h : magnitude x = magnitude y) :
    unsigned x = unsigned y := by
  rcases Nat.lt_trichotomy (unsigned x) (unsigned y) with hlt | heq | hgt
  · have := magnitude_lt_of_unsigned_lt hlt
    omega
  · exact heq
  · have := magnitude_lt_of_unsigned_lt hgt
    omega

/-! ## Equal numbers -/

/-- What the fields of a word say about the number. -/
inductive Denotes (x : Float) : Reading → Prop
  | nan : exponentField x = 2047 → fractionField x ≠ 0 → Denotes x .nan
  | negInfinity : unsigned x = 2047 * (1 <<< 52) → isNegative x = true → Denotes x .negInfinity
  | posInfinity : unsigned x = 2047 * (1 <<< 52) → isNegative x = false → Denotes x .posInfinity
  | finite : exponentField x ≠ 2047 →
    Denotes x (.finite (if isNegative x then -(magnitude x : Int) else magnitude x))

theorem denotes_reading (x : Float) : Denotes x (reading x) := by
  unfold reading
  split
  · next hexponent =>
    split
    · next hfraction => exact .nan hexponent hfraction
    · next hfraction =>
      have hbits : unsigned x = 2047 * (1 <<< 52) := by
        rw [unsigned_eq, hexponent, Decidable.not_not.mp hfraction]
        rfl
      cases hsign : isNegative x with
      | true => exact .negInfinity hbits hsign
      | false => exact .posInfinity hbits hsign
  · next hexponent => exact .finite hexponent

/-- The number is decided by the word. -/
theorem reading_eq_of_toBits_eq {x y : Float} (h : x.toBits = y.toBits) :
    reading x = reading y := by
  unfold reading isNegative significand place exponentField fractionField
  rw [h]

/-- Words with the same sign and the same further bits are the same. -/
theorem toBits_eq {x y : Float} (hsign : isNegative x = isNegative y)
    (hbits : unsigned x = unsigned y) : x.toBits = y.toBits := by
  apply UInt64.toNat_inj.mp
  rw [toNat_toBits x, toNat_toBits y, hsign, hbits]

/-- **Words of one number** are the same, unless the number is zero. -/
theorem toBits_eq_of_reading_eq {x y : Float} (h : reading x = reading y)
    (hnan : reading x ≠ .nan) (hzero : reading x ≠ .finite 0) : x.toBits = y.toBits := by
  have hx := denotes_reading x
  have hy := denotes_reading y
  rw [← h] at hy
  generalize reading x = r at hx hy hnan hzero
  cases hx with
  | nan => exact absurd rfl hnan
  | negInfinity hbits hsign =>
    cases hy with
    | negInfinity hbits' hsign' =>
      exact toBits_eq (hsign.trans hsign'.symm) (hbits.trans hbits'.symm)
  | posInfinity hbits hsign =>
    cases hy with
    | posInfinity hbits' hsign' =>
      exact toBits_eq (hsign.trans hsign'.symm) (hbits.trans hbits'.symm)
  | finite =>
    generalize hunits : (if isNegative x then -(magnitude x : Int) else magnitude x) = units
      at hy hzero
    cases hy with
    | finite =>
      -- a number other than zero has one sign
      have hne : magnitude x ≠ 0 := by
        intro hmagnitude
        rw [← hunits, hmagnitude] at hzero
        simp at hzero
      have hsame : isNegative x = isNegative y ∧ magnitude x = magnitude y := by
        cases hsx : isNegative x <;> cases hsy : isNegative y <;> simp [hsx, hsy] at hunits ⊢ <;>
          omega
      exact toBits_eq hsame.1 (unsigned_eq_of_magnitude_eq hsame.2)

/-! ## The exact order -/

/-- Numbers are in the order of equality exactly if they are equal. -/
theorem order_eq_some_eq_iff {r s : Reading} : r.order s = some .eq ↔ r = s ∧ r ≠ .nan := by
  cases r <;> cases s <;> simp [Reading.order]

theorem unitsPerOne_pos : 0 < unitsPerOne := by
  decide +kernel

theorem ofInt_inj {n k : Int} : Reading.ofInt n = Reading.ofInt k ↔ n = k := by
  unfold Reading.ofInt
  rw [Reading.finite.injEq]
  exact Int.mul_eq_mul_right_iff (Int.ne_of_gt unitsPerOne_pos)

/-- Comparing with the whole part and then with the fraction is comparing exactly.  The whole
part is cut towards zero, so the fraction lies on either side of it. -/
theorem compare_then_tdiv {d : Int} (hd : 0 < d) (n units : Int) :
    (compare n (units.tdiv d)).then (compare (units.tdiv d * d) units) = compare (n * d) units := by
  have hdiv := Int.mul_tdiv_add_tmod units d
  have hlow := Int.lt_tmod_of_pos units hd
  have hhigh := Int.tmod_lt_of_pos units hd
  rw [Int.mul_comm d] at hdiv
  generalize units.tdiv d = whole at hdiv ⊢
  rcases Int.lt_trichotomy n whole with hlt | rfl | hgt
  · have hle : (n + 1) * d ≤ whole * d := Int.mul_le_mul_of_nonneg_right hlt (Int.le_of_lt hd)
    rw [Int.add_mul, Int.one_mul] at hle
    have hexact : n * d < units := by omega
    rw [Int.compare_eq_lt.mpr hlt, Int.compare_eq_lt.mpr hexact]
    rfl
  · rw [Int.compare_eq_eq.mpr rfl]
    rfl
  · have hle : (whole + 1) * d ≤ n * d := Int.mul_le_mul_of_nonneg_right hgt (Int.le_of_lt hd)
    rw [Int.add_mul, Int.one_mul] at hle
    have hexact : units < n * d := by omega
    rw [Int.compare_eq_gt.mpr hgt, Int.compare_eq_gt.mpr hexact]
    rfl

/-- A whole part lies below every positive bound that the number lies below. -/
theorem tdiv_lt_of_lt_mul {d units bound : Int} (hd : 0 < d) (hbound : 0 < bound)
    (h : units < bound * d) : units.tdiv d < bound := by
  have hdiv := Int.mul_tdiv_add_tmod units d
  rw [Int.mul_comm] at hdiv
  rcases Int.lt_or_le units 0 with hneg | hnonneg
  · have hlow := Int.lt_tmod_of_pos units hd
    have hone : units.tdiv d * d < 1 * d := by omega
    have := Int.lt_of_mul_lt_mul_right hone (Int.le_of_lt hd)
    omega
  · have hmod := Int.tmod_nonneg d hnonneg
    exact Int.lt_of_mul_lt_mul_right (a := d) (by omega) (Int.le_of_lt hd)

/-- **An integer against a float.**  The order is that of the two numbers. -/
theorem intOrder_eq (n : Int64) (x : Float) :
    intOrder n x = (Reading.ofInt n.toInt).order (reading x) := by
  have hpos := unitsPerOne_pos
  have hlow : -(1 <<< 63 : Nat) * unitsPerOne ≤ n.toInt * unitsPerOne :=
    Int.mul_le_mul_of_nonneg_right n.le_toInt (Int.le_of_lt hpos)
  have hhigh : n.toInt * unitsPerOne < (1 <<< 63 : Nat) * unitsPerOne :=
    Int.mul_lt_mul_of_pos_right n.toInt_lt hpos
  rw [Int.neg_mul] at hlow
  unfold intOrder Reading.ofInt
  cases reading x with
  | nan => rfl
  | negInfinity => rfl
  | posInfinity => rfl
  | finite units =>
    simp only [Reading.order]
    split
    · next hbeyond =>
      rw [Int.compare_eq_lt.mpr (Int.lt_of_lt_of_le hhigh hbeyond)]
    · next habove =>
      split
      · next hbelow =>
        rw [Int.compare_eq_gt.mpr (Int.lt_of_lt_of_le hbelow hlow)]
      · next hnotBelow =>
        -- the whole part is in range, so taking it as a word does not change it
        have hwhole : (Int64.ofInt (units.tdiv unitsPerOne)).toInt = units.tdiv unitsPerOne := by
          refine Int64.toInt_ofInt_of_le ?_ ?_
          · exact Int.le_tdiv_of_mul_le hpos (by rw [Int.neg_mul]; exact Int.not_lt.mp hnotBelow)
          · exact tdiv_lt_of_lt_mul hpos (by decide) (Int.not_le.mp habove)
        rw [hwhole, compare_then_tdiv hpos]

/-! ## Whole numbers -/

/-- A float is a whole number if it denotes an integer, and then that is its floor. -/
theorem isIntegral_iff {x : Float} :
    isIntegral x = true ↔ reading x = Reading.ofInt (floor x) := by
  unfold isIntegral floor Reading.ofInt
  cases reading x with
  | finite units =>
    have hdiv := Int.emod_add_mul_ediv units unitsPerOne
    simp only [beq_iff_eq, Reading.finite.injEq]
    constructor
    · intro h
      rw [h, Int.zero_add, Int.mul_comm] at hdiv
      exact hdiv.symm
    · intro h
      rw [Int.mul_comm] at hdiv
      omega
  | _ => simp

theorem floor_of_reading {x : Float} {n : Int} (h : reading x = Reading.ofInt n) : floor x = n := by
  unfold floor
  rw [h]
  exact Int.mul_ediv_cancel n (Int.ne_of_gt unitsPerOne_pos)

/-- The integers up to a float are those up to its floor. -/
theorem le_floor_iff {x : Float} {units : Int} (h : reading x = .finite units) (i : Int) :
    i ≤ floor x ↔ i * unitsPerOne ≤ units := by
  unfold floor
  rw [h]
  exact Int.le_ediv_iff_mul_le unitsPerOne_pos

/-- The integers from a float on are those from its ceiling on. -/
theorem ceil_le_iff {x : Float} {units : Int} (h : reading x = .finite units) (i : Int) :
    ceil x ≤ i ↔ units ≤ i * unitsPerOne := by
  have hneg := Int.le_ediv_iff_mul_le (a := -i) (b := -units) unitsPerOne_pos
  unfold ceil
  rw [h]
  dsimp only
  rw [Int.neg_mul] at hneg
  omega

end Binary64
end AdaptiveScript
