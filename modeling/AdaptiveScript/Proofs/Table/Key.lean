import AdaptiveScript.Proofs.Number.Reading
import AdaptiveScript.Proofs.Table.Map

/-!
# Equal values and equal keys

Two values address the same entry of a table if they have the same key.  Keys follow equality
of values for texts, truth values and numbers of one kind, where the two zeros are one number
and every other number has one word.  Between the kinds they follow it only for integers of
magnitude below `2 ^ 53`: a larger integer and the float that equals it are two keys
(`keptApart`), although the language finds them equal.

A float that is no NaN has one of two kinds of key (`ofFloat_cases`), and what is said about
keys rests on that alone.
-/

namespace AdaptiveScript

namespace Value

/-- The values that can be keys: texts, truth values, integers, and floats other than NaN. -/
def isKey : Value → Bool
  | .str _ | .bool _ | .int _ => true
  | .float x => Binary64.reading x ≠ .nan
  | _ => false

/-- Pairs of numbers that are never one key: an integer of magnitude `2 ^ 53` or more, and a
float. -/
def keptApart : Value → Value → Bool
  | .int n, .float _ => 1 <<< 53 ≤ n.toInt.natAbs
  | .float _, .int n => 1 <<< 53 ≤ n.toInt.natAbs
  | _, _ => false

theorem int_equals_float {n : Int64} {x : Float} :
    (Value.int n).equals (.float x) = true ↔ Binary64.reading x = .ofInt n.toInt := by
  simp only [equals, Binary64.intOrder_eq, beq_iff_eq, Binary64.order_eq_some_eq_iff]
  constructor
  · intro h
    exact h.1.symm
  · intro h
    exact ⟨h.symm, by simp [Binary64.Reading.ofInt]⟩

theorem float_equals_int {n : Int64} {x : Float} :
    (Value.float x).equals (.int n) = true ↔ Binary64.reading x = .ofInt n.toInt :=
  int_equals_float

theorem float_equals_float {x y : Float} (h : Binary64.reading x ≠ .nan) :
    (Value.float x).equals (.float y) = true ↔ Binary64.reading x = Binary64.reading y := by
  simp [equals, Binary64.order, Binary64.order_eq_some_eq_iff, h]

end Value

namespace Key

open Binary64

/-- A float denotes an integer whose magnitude floats count without gaps. -/
def Small (x : Float) (n : Int64) : Prop :=
  reading x = .ofInt n.toInt ∧ n.toInt.natAbs < 1 <<< 53

theorem toInt_ofInt_of_small {n : Int} (h : n.natAbs < 1 <<< 53) : (Int64.ofInt n).toInt = n := by
  simp only [Nat.reduceShiftLeft] at h
  exact Int64.toInt_ofInt_of_le (by omega) (by omega)

theorem absBelow_iff {x : Float} {n : Int} (h : reading x = .ofInt n) (bound : Nat) :
    absBelow x bound = true ↔ n.natAbs < bound := by
  unfold absBelow
  rw [h]
  have hpos : 0 < unitsPerOne.natAbs := Int.natAbs_pos.mpr (Int.ne_of_gt unitsPerOne_pos)
  simp only [Reading.ofInt, decide_eq_true_eq, Int.natAbs_mul]
  exact Nat.mul_lt_mul_right hpos

/-- **The key of a float**: an integer where the float is a small one, and the word of the
float otherwise. -/
theorem ofFloat_cases {x : Float} (h : reading x ≠ .nan) :
    (∃ n, Small x n ∧ ofValue (.float x) = .ok (.int n)) ∨
      (∀ n, ¬ Small x n) ∧ ofValue (.float x) = .ok (.float x.toBits) := by
  simp only [ofValue, if_neg h]
  split
  · next hsmall =>
    rw [Bool.and_eq_true] at hsmall
    have hint := isIntegral_iff.mp hsmall.1
    have hlt := (absBelow_iff hint _).mp hsmall.2
    have hfloor := toInt_ofInt_of_small hlt
    exact .inl ⟨Int64.ofInt (floor x), ⟨by rw [hfloor]; exact hint, by rw [hfloor]; exact hlt⟩, rfl⟩
  · next hlarge =>
    refine .inr ⟨?_, rfl⟩
    intro n hn
    apply hlarge
    rw [Bool.and_eq_true]
    refine ⟨isIntegral_iff.mpr ?_, (absBelow_iff hn.1 _).mpr hn.2⟩
    rw [floor_of_reading hn.1]
    exact hn.1

/-- Zero is small, whichever of its words it has. -/
theorem reading_ne_zero {x : Float} (h : ∀ n, ¬ Small x n) : reading x ≠ .finite 0 := by
  intro hzero
  exact h 0 ⟨by rw [hzero]; rfl, by decide⟩

theorem Small.congr {x y : Float} (h : reading x = reading y) {n : Int64} (hn : Small x n) :
    Small y n :=
  ⟨h ▸ hn.1, hn.2⟩

/-- Small floats have the integer they denote as key. -/
theorem Small.eq_iff {x : Float} {n k : Int64} (hn : Small x n) :
    n = k ↔ reading x = .ofInt k.toInt := by
  rw [hn.1, ofInt_inj, Int64.toInt_inj]

/-- Floats have the same key exactly if they denote the same number. -/
theorem ofFloat_eq_iff {x y : Float} (hx : reading x ≠ .nan) (hy : reading y ≠ .nan) :
    ∃ kx ky, ofValue (.float x) = .ok kx ∧ ofValue (.float y) = .ok ky ∧
      (kx = ky ↔ reading x = reading y) := by
  rcases ofFloat_cases hx with ⟨n, hn, hkx⟩ | ⟨hlarge, hkx⟩ <;>
    rcases ofFloat_cases hy with ⟨k, hk, hky⟩ | ⟨hlarge', hky⟩ <;>
    refine ⟨_, _, hkx, hky, ?_⟩
  · rw [Key.int.injEq, hn.eq_iff, ← hk.1]
  · simp only [reduceCtorEq, false_iff]
    intro h
    exact hlarge' n (hn.congr h)
  · simp only [reduceCtorEq, false_iff]
    intro h
    exact hlarge k (hk.congr h.symm)
  · rw [Key.float.injEq]
    exact ⟨reading_eq_of_toBits_eq,
      fun h => toBits_eq_of_reading_eq h hx (reading_ne_zero hlarge)⟩

/-- An integer and a float have the same key exactly if they are equal and small. -/
theorem ofInt_ofFloat_eq_iff {x : Float} (hx : reading x ≠ .nan) (n : Int64) :
    ∃ k, ofValue (.float x) = .ok k ∧
      (.int n = k ↔ reading x = .ofInt n.toInt ∧ n.toInt.natAbs < 1 <<< 53) := by
  rcases ofFloat_cases hx with ⟨k, hk, hkey⟩ | ⟨hlarge, hkey⟩ <;> refine ⟨_, hkey, ?_⟩
  · rw [Key.int.injEq, eq_comm, hk.eq_iff]
    refine ⟨fun h => ⟨h, ?_⟩, And.left⟩
    rw [← (hk.eq_iff.mpr h)]
    exact hk.2
  · simp only [reduceCtorEq, false_iff]
    exact hlarge n

theorem float_of_isKey {x : Float} (h : (Value.float x).isKey = true) : reading x ≠ .nan := by
  simpa [Value.isKey] using h

/-- Values that can be keys have the same key exactly if they are equal and not a large integer
with a float. -/
theorem ofValue_eq_iff {a b : Value} (ha : a.isKey = true) (hb : b.isKey = true) :
    ∃ ka kb, ofValue a = .ok ka ∧ ofValue b = .ok kb ∧
      (ka = kb ↔ a.equals b = true ∧ a.keptApart b = false) := by
  cases a with
  | nil | table _ | function _ => cases ha
  | float x =>
    have hx := float_of_isKey ha
    cases b with
    | nil | table _ | function _ => cases hb
    | float y =>
      obtain ⟨kx, ky, hkx, hky, hiff⟩ := ofFloat_eq_iff hx (float_of_isKey hb)
      refine ⟨kx, ky, hkx, hky, ?_⟩
      rw [hiff, Value.float_equals_float hx]
      simp [Value.keptApart]
    | int n =>
      obtain ⟨k, hk, hiff⟩ := ofInt_ofFloat_eq_iff hx n
      refine ⟨k, _, hk, rfl, ?_⟩
      rw [eq_comm, hiff, Value.float_equals_int]
      simp [Value.keptApart]
    | str _ | bool _ =>
      rcases ofFloat_cases hx with ⟨n, -, hk⟩ | ⟨-, hk⟩ <;>
        exact ⟨_, _, hk, rfl, by simp [Value.equals]⟩
  | int n =>
    cases b with
    | nil | table _ | function _ => cases hb
    | float y =>
      obtain ⟨k, hk, hiff⟩ := ofInt_ofFloat_eq_iff (float_of_isKey hb) n
      refine ⟨_, k, rfl, hk, ?_⟩
      rw [hiff, Value.int_equals_float]
      simp [Value.keptApart]
    | int _ | str _ | bool _ => exact ⟨_, _, rfl, rfl, by simp [Value.equals, Value.keptApart]⟩
  | str _ | bool _ =>
    cases b with
    | nil | table _ | function _ => cases hb
    | float y =>
      rcases ofFloat_cases (float_of_isKey hb) with ⟨n, -, hk⟩ | ⟨-, hk⟩ <;>
        exact ⟨_, _, rfl, hk, by simp [Value.equals]⟩
    | int _ | str _ | bool _ => exact ⟨_, _, rfl, rfl, by simp [Value.equals, Value.keptApart]⟩

/-- **Keys against equality.**  Every value that can be a key has one, and two such values have
the same key exactly if they are equal and not a large integer with a float.  So a write at one
of two values is read at the other in that case, and leaves it as it was in every other. -/
theorem access_of_equals {a b : Value} (ha : a.isKey = true) (hb : b.isKey = true) :
    ∃ ka kb, ofValue a = .ok ka ∧ ofValue b = .ok kb ∧
      (ka = kb ↔ a.equals b = true ∧ a.keptApart b = false) ∧
      ∀ t : Table, t.Regular → ∀ v,
        (t.set ka v).get kb = if a.equals b && !a.keptApart b then v else t.get kb := by
  obtain ⟨ka, kb, hka, hkb, hiff⟩ := ofValue_eq_iff ha hb
  refine ⟨ka, kb, hka, hkb, hiff, ?_⟩
  intro t ht v
  have hsame : (a.equals b && !a.keptApart b) = true ↔ ka = kb := by
    rw [hiff, Bool.and_eq_true, Bool.not_eq_true']
  split
  · next heq => rw [← hsame.mp heq, Table.get_set_self ht]
  · next hne => exact Table.get_set_of_ne (fun h => hne (hsame.mpr h.symm)) v

/-- The integer `2 ^ 53` and the float that equals it are two keys, and what is written at the
one is not read at the other. -/
theorem access_of_equals_large :
    (Value.int 9007199254740992).equals (.float (Float.ofBits 0x4340000000000000)) = true ∧
      ∃ ka kb, ofValue (.int 9007199254740992) = .ok ka ∧
        ofValue (.float (Float.ofBits 0x4340000000000000)) = .ok kb ∧ ka ≠ kb ∧
        ((Table.ofLayout .dynamic).set ka (.bool true)).get kb = .nil := by
  have hequal : (Value.int 9007199254740992).equals (.float (Float.ofBits 0x4340000000000000)) =
      true := by decide +kernel
  have hapart : (Value.int 9007199254740992).keptApart (.float (Float.ofBits 0x4340000000000000)) =
      true := by decide +kernel
  obtain ⟨ka, kb, hka, hkb, hiff, hget⟩ := access_of_equals
    (a := .int 9007199254740992) (b := .float (Float.ofBits 0x4340000000000000))
    (by decide +kernel) (by decide +kernel)
  refine ⟨hequal, ka, kb, hka, hkb, ?_, ?_⟩
  · rw [ne_eq, hiff, hapart]
    simp
  · rw [hget _ (Table.regular_ofLayout .dynamic), hapart]
    simpa using Table.get_ofLayout .dynamic kb

end Key
end AdaptiveScript
