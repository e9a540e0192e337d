import AdaptiveScript.Execution
import AdaptiveScript.Proofs.Number.Reading

/-!
# Which integers a loop runs over

An integer loop counts its rounds before the first one.  Here it is compared with the plain
reading of a loop: the body runs for each of a list of integers in turn (`eachInt`), and the
integers are `start`, `start + step`, and so on as long as they are not past the limit.

The limit may be a float, which is exact: an integer is past it or not as the two numbers are,
with nothing rounded (`Admits`).  The loop replaces the limit by an integer, rounded towards
the start and brought into the range of machine words, and the second of the two steps is where
the replacement can be felt.  A limit that lies before every machine integer becomes the first of
them, in the direction of the loop, so a loop that starts there runs once although its limit admits
nothing (`rangeLoop_of_float_limit`).

## Main statements

* `lt_rangeLength_iff`: the number of rounds, for an integer limit.
* `notPast_clampInt_iff`: what bringing a bound into range changes.
* `rangeLoop_of_float_limit`: the integers that a loop with a float limit runs over.
-/

namespace AdaptiveScript

/-! ## Rounds -/

/-- Run a body for each of some integers, each time in a new variable, until a round leaves the
loop. -/
def eachInt (slot : Nat) (body : Frame → Run (Flow × Frame)) :
    List Int → Frame → Run (Flow × Frame)
  | [], frame => pure (.normal, frame)
  | i :: rest, frame => do
    let frame ← declareLocal slot (.int (Int64.ofInt i)) frame
    afterRound (eachInt slot body rest) (← body frame)

/-- The first terms of an arithmetic progression. -/
def progression (start step : Int) (count : Nat) : List Int :=
  (List.range count).map fun k : Nat => start + k * step

theorem progression_succ (start step : Int) (count : Nat) :
    progression start step (count + 1) = start :: progression (start + step) step count := by
  simp only [progression, List.range_succ_eq_map, List.map_cons, List.map_map, List.cons.injEq]
  refine ⟨by simp, List.map_congr_left fun k _ => ?_⟩
  simp only [Function.comp_apply, Nat.succ_eq_add_one, Int.natCast_add, Int.add_mul]
  omega

/-- A loop that counts its rounds runs over a progression. -/
theorem intLoop_eq_eachInt (slot : Nat) (body : Frame → Run (Flow × Frame)) (step : Int)
    (count : Nat) : ∀ start frame, intLoop slot body step count start frame =
      eachInt slot body (progression start step count) frame := by
  induction count with
  | zero =>
    intro start frame
    rfl
  | succ count ih =>
    intro start frame
    have hrest : intLoop slot body step count (start + step) =
        eachInt slot body (progression (start + step) step count) := funext (ih (start + step))
    rw [progression_succ, intLoop, eachInt, hrest]

namespace Range

/-- An integer is not past a bound, in the direction of `step`. -/
def NotPast (step bound i : Int) : Prop :=
  if 0 < step then i ≤ bound else bound ≤ i

/-- **The number of rounds.**  The terms of a progression that are counted are those not past the
limit. -/
theorem lt_rangeLength_iff {step : Int} (hstep : step ≠ 0) (start limit : Int) (k : Nat) :
    k < rangeLength start limit step ↔ NotPast step limit (start + k * step) := by
  unfold rangeLength NotPast
  split
  · next hpos =>
    have hnonneg : 0 ≤ k * step := Int.mul_nonneg (by omega) (by omega)
    split
    · next hle =>
      have hdiv : (k : Int) ≤ (limit - start) / step ↔ k * step ≤ limit - start :=
        Int.le_ediv_iff_mul_le hpos
      have hquot : 0 ≤ (limit - start) / step := Int.ediv_nonneg (by omega) (by omega)
      omega
    · omega
  · next hpos =>
    have hneg : step < 0 := by omega
    have hnonneg : 0 ≤ k * -step := Int.mul_nonneg (by omega) (by omega)
    rw [if_pos hneg]
    rw [Int.mul_neg] at hnonneg
    split
    · next hle =>
      have hdiv : (k : Int) ≤ (start - limit) / -step ↔ k * -step ≤ start - limit :=
        Int.le_ediv_iff_mul_le (by omega)
      have hquot : 0 ≤ (start - limit) / -step := Int.ediv_nonneg (by omega) (by omega)
      rw [Int.mul_neg] at hdiv
      omega
    · omega

/-! ## Machine integers -/

/-- An integer fits a machine word. -/
def Fits (n : Int) : Prop :=
  Int64.minValue.toInt ≤ n ∧ n ≤ Int64.maxValue.toInt

theorem fits_toInt (n : Int64) : Fits n.toInt :=
  ⟨Int64.le_iff_toInt_le.mp (Int64.minValue_le n), Int64.le_iff_toInt_le.mp (Int64.le_maxValue n)⟩

theorem toInt_ofInt_of_fits {n : Int} (h : Fits n) : (Int64.ofInt n).toInt = n :=
  Int64.toInt_ofInt_of_le h.1 (Int.lt_of_le_of_lt h.2 (by decide))

theorem toInt_clampInt (n : Int) :
    (clampInt n).toInt = max Int64.minValue.toInt (min Int64.maxValue.toInt n) := by
  refine toInt_ofInt_of_fits ⟨Int.le_max_left _ _, ?_⟩
  have hle : Int64.minValue.toInt ≤ Int64.maxValue.toInt := by decide
  omega

/-- The machine integer that comes before all others in the direction of `step`. -/
def outset (step : Int) : Int :=
  if 0 < step then Int64.minValue.toInt else Int64.maxValue.toInt

/-- Bringing a bound into range keeps what it admits, except that a bound before all machine
integers comes to admit the first of them. -/
theorem notPast_clampInt_iff (step n : Int) {i : Int} (hi : Fits i) :
    NotPast step (clampInt n).toInt i ↔
      NotPast step n i ∨ i = outset step ∧ ¬ NotPast step n (outset step) := by
  obtain ⟨hmin, hmax⟩ := hi
  rw [toInt_clampInt]
  unfold NotPast outset
  split <;> omega

/-- All terms up to one that is not past a machine integer fit a machine word. -/
theorem fits_of_notPast {step : Int} {start bound : Int64} {k : Nat}
    (h : NotPast step bound.toInt (start.toInt + k * step)) : Fits (start.toInt + k * step) := by
  obtain ⟨hstart, hstart'⟩ := fits_toInt start
  obtain ⟨hbound, hbound'⟩ := fits_toInt bound
  unfold NotPast at h
  unfold Fits
  split at h
  · next hpos =>
    have hnonneg : 0 ≤ k * step := Int.mul_nonneg (by omega) (by omega)
    omega
  · next hneg =>
    have hnonneg : 0 ≤ k * -step := Int.mul_nonneg (by omega) (by omega)
    rw [Int.mul_neg] at hnonneg
    omega

theorem fits_outset (step : Int) : Fits (outset step) := by
  unfold outset
  split <;> exact fits_toInt _

/-- A progression of machine integers can reach the first of them with its first term only. -/
theorem eq_outset {step : Int} (hstep : step ≠ 0) {start : Int64} {k : Nat}
    (h : start.toInt + k * step = outset step) : k = 0 ∧ start.toInt = outset step := by
  obtain ⟨hmin, hmax⟩ := fits_toInt start
  suffices hzero : k * step = 0 by
    refine ⟨?_, by omega⟩
    have := (Int.mul_eq_zero.mp hzero).resolve_right hstep
    omega
  unfold outset at h
  split at h
  · next hpos =>
    have hnonneg : 0 ≤ k * step := Int.mul_nonneg (by omega) (by omega)
    omega
  · next hneg =>
    have hnonneg : 0 ≤ k * -step := Int.mul_nonneg (by omega) (by omega)
    rw [Int.mul_neg] at hnonneg
    omega

/-! ## Float limits -/

open Binary64

/-- An integer is not past a limit, in exact arithmetic: not above it if the loop counts up, and
not below it if the loop counts down. -/
def Admits (step : Int) : Reading → Int → Prop
  | .nan, _ => False
  | .negInfinity, _ => step < 0
  | .posInfinity, _ => 0 < step
  | .finite units, i =>
    if 0 < step then i * unitsPerOne ≤ units else units ≤ i * unitsPerOne

/-- A limit admits no machine integer. -/
def AdmitsNone (step : Int) (limit : Reading) : Prop :=
  ∀ i, Fits i → ¬ Admits step limit i

/-- A float admits what its rounding towards the start does. -/
theorem admits_finite_iff {x : Float} {units : Int} (h : reading x = .finite units)
    (step i : Int) : Admits step (.finite units) i ↔
      NotPast step (if 0 < step then floor x else ceil x) i := by
  unfold NotPast
  simp only [Admits]
  split
  · exact (le_floor_iff h i).symm
  · exact (ceil_le_iff h i).symm

/-- The first machine integer is admitted if any is. -/
theorem admitsNone_iff (step : Int) (limit : Reading) :
    AdmitsNone step limit ↔ ¬ Admits step limit (outset step) := by
  refine ⟨fun h => h _ (fits_outset step), ?_⟩
  intro h i hi hadmits
  apply h
  cases limit with
  | finite units =>
    have hunits := Int.le_of_lt unitsPerOne_pos
    simp only [Admits, outset] at hadmits ⊢
    split
    · next hpos =>
      rw [if_pos hpos] at hadmits
      exact Int.le_trans (Int.mul_le_mul_of_nonneg_right hi.1 hunits) hadmits
    · next hpos =>
      rw [if_neg hpos] at hadmits
      exact Int.le_trans hadmits (Int.mul_le_mul_of_nonneg_right hi.2 hunits)
  | _ => exact hadmits

/-- **The integer that stands for a float limit** admits what the float does, and the first machine
integer where the float admits none. -/
theorem intLimit_of_float {x : Float} (hnan : reading x ≠ .nan) {step : Int64} (hstep : step ≠ 0) :
    ∃ bound, intLimit (.float x) step = .ok (some bound) ∧
      ∀ i, Fits i → (NotPast step.toInt bound.toInt i ↔ Admits step.toInt (reading x) i ∨
        i = outset step.toInt ∧ AdmitsNone step.toInt (reading x)) := by
  have hsign : 0 < step ↔ 0 < step.toInt := Int64.lt_iff_toInt_lt
  have hzero : step.toInt ≠ 0 := fun h => hstep (Int64.toInt_inj.mp h)
  simp only [admitsNone_iff, intLimit]
  cases hx : reading x with
  | nan => exact absurd hx hnan
  | negInfinity =>
    refine ⟨_, rfl, ?_⟩
    rintro i ⟨hmin, hmax⟩
    simp only [Admits, NotPast, outset]
    split <;> omega
  | posInfinity =>
    refine ⟨_, rfl, ?_⟩
    rintro i ⟨hmin, hmax⟩
    simp only [Admits, NotPast, outset]
    split <;> omega
  | finite units =>
    refine ⟨_, rfl, ?_⟩
    intro i hi
    simp only [admits_finite_iff hx, hsign]
    exact notPast_clampInt_iff _ _ hi

end Range

open Range Binary64

/-- **Loops with a float limit.**  The limit is replaced by an integer that admits the same machine
integers, and the loop runs over the terms of its progression that are machine integers and not
past the limit in exact arithmetic.  There is one exception: where the limit admits no machine
integer, the first of them is admitted, and a loop that starts there has one round. -/
theorem rangeLoop_of_float_limit (slot : Nat) (body : Frame → Run (Flow × Frame)) (rounds : Nat)
    (frame : Frame) (start : Int64) {step : Int64} (hstep : step ≠ 0) {x : Float}
    (hnan : reading x ≠ .nan) :
    (∃ bound, intLimit (.float x) step = .ok (some bound) ∧
      ∀ i : Int64, NotPast step.toInt bound.toInt i.toInt ↔ Admits step.toInt (reading x) i.toInt ∨
        i.toInt = outset step.toInt ∧ AdmitsNone step.toInt (reading x)) ∧
    ∃ count, rangeLoop slot body rounds (.int start (.float x) step) frame =
        eachInt slot body (progression start.toInt step.toInt count) frame ∧
      ∀ k : Nat, k < count ↔
        Fits (start.toInt + k * step.toInt) ∧
            Admits step.toInt (reading x) (start.toInt + k * step.toInt) ∨
          k = 0 ∧ start.toInt = outset step.toInt ∧ AdmitsNone step.toInt (reading x) := by
  obtain ⟨bound, hbound, hadmits⟩ := intLimit_of_float hnan hstep
  have hzero : step.toInt ≠ 0 := fun h => hstep (Int64.toInt_inj.mp h)
  refine ⟨⟨bound, hbound, fun i => hadmits _ (fits_toInt i)⟩,
    rangeLength start.toInt bound.toInt step.toInt, ?_, ?_⟩
  · rw [← intLoop_eq_eachInt]
    simp only [rangeLoop, if_neg hstep, hbound]
    rfl
  · intro k
    rw [lt_rangeLength_iff hzero]
    constructor
    · intro hk
      have hfits := fits_of_notPast hk
      rcases (hadmits _ hfits).mp hk with hadmitted | ⟨hfirst, hnone⟩
      · exact .inl ⟨hfits, hadmitted⟩
      · -- a term after the first lies beyond the first machine integer
        obtain ⟨rfl, hstart⟩ := eq_outset hzero hfirst
        exact .inr ⟨rfl, hstart, hnone⟩
    · rintro (⟨hfits, hadmitted⟩ | ⟨rfl, hfirst, hnone⟩)
      · exact (hadmits _ hfits).mpr (.inl hadmitted)
      · refine (hadmits _ ?_).mpr (.inr ⟨?_, hnone⟩)
        · simpa using fits_toInt start
        · simpa using hfirst

/-- No integer is at most minus infinity, and yet the loop from the least machine integer up to it
has a round. -/
theorem rangeLoop_of_float_limit_infinite :
    AdmitsNone 1 (reading (Float.ofBits 0xfff0000000000000)) ∧
      rangeLoop 0 (fun frame => pure (.normal, frame)) 0
          (.int Int64.minValue (.float (Float.ofBits 0xfff0000000000000)) 1) ⟨0, #[], [], #[], []⟩ =
        eachInt 0 (fun frame => pure (.normal, frame)) [Int64.minValue.toInt]
          ⟨0, #[], [], #[], []⟩ := by
  have hreading : reading (Float.ofBits 0xfff0000000000000) = .negInfinity := by decide +kernel
  have hnone : AdmitsNone 1 (reading (Float.ofBits 0xfff0000000000000)) := by
    rw [admitsNone_iff, hreading]
    exact (by decide : ¬ (1 : Int) < 0)
  obtain ⟨-, count, hrun, hcount⟩ := rangeLoop_of_float_limit 0
    (fun frame => pure (.normal, frame)) 0 ⟨0, #[], [], #[], []⟩ Int64.minValue
    (by decide : (1 : Int64) ≠ 0) (x := Float.ofBits 0xfff0000000000000) (by rw [hreading]; decide)
  have hfirst : 0 < count := (hcount 0).mpr (.inr ⟨rfl, by decide, hnone⟩)
  have hsecond : ¬ 1 < count := by
    rw [hcount 1, hreading]
    rintro (⟨-, hadmits⟩ | ⟨hone, -⟩)
    · exact absurd hadmits (by decide : ¬ (1 : Int64).toInt < 0)
    · cases hone
  obtain rfl : count = 1 := by omega
  exact ⟨hnone, hrun⟩

end AdaptiveScript
