import AdaptiveScript.Conversion
import Mathlib.Data.List.Induction
import Mathlib.Data.List.TakeWhile

/-!
# Spelled numbers

A text spells a number in a radix if it is the usual notation of the number, with any digit in
either case and with any number of zeros in front (`Numeral.Spells`).  `digits?_eq_some_iff` says
that the readers of digits accept spelled numbers and nothing else.  With an optional sign in
front the same holds of signed 64-bit integers, the range included (`readInt?_eq_some_iff`).

Texts may have blanks around them.  No digit, sign, point or letter of a numeral is a blank, so
the blanks are found whatever stands between them (`Text.trim_eq_of_clear`).
-/

namespace AdaptiveScript

/-! ## Blanks -/

namespace Text

/-- A text of blanks. -/
def AllBlank (cs : List Char) : Prop :=
  ∀ c ∈ cs, isBlank c = true

instance (cs : List Char) : Decidable (AllBlank cs) :=
  decidable_of_iff (cs.all isBlank = true) List.all_eq_true

/-- A text without any blank. -/
def Clear (cs : List Char) : Prop :=
  ∀ c ∈ cs, isBlank c = false

/-- What is dropped from the front of a text is blank. -/
theorem exists_dropWhile (cs : List Char) :
    ∃ before, AllBlank before ∧ cs = before ++ cs.dropWhile isBlank :=
  ⟨cs.takeWhile isBlank, fun _ hc => List.mem_takeWhile_imp hc,
    List.takeWhile_append_dropWhile.symm⟩

/-- Every text is what is left of it with blanks around. -/
theorem exists_trim (cs : List Char) :
    ∃ before after, AllBlank before ∧ AllBlank after ∧ cs = before ++ trim cs ++ after := by
  obtain ⟨before, hbefore, hfront⟩ := exists_dropWhile cs
  obtain ⟨after, hafter, hback⟩ := exists_dropWhile (cs.dropWhile isBlank).reverse
  refine ⟨before, after.reverse, hbefore, fun c hc => hafter c (List.mem_reverse.mp hc), ?_⟩
  have hmiddle : cs.dropWhile isBlank = trim cs ++ after.reverse := by
    rw [← List.reverse_reverse (cs.dropWhile isBlank), hback, List.reverse_append]
    rfl
  rw [List.append_assoc, ← hmiddle]
  exact hfront

theorem dropWhile_append_of_allBlank {before : List Char} (h : AllBlank before) (cs : List Char) :
    (before ++ cs).dropWhile isBlank = cs.dropWhile isBlank := by
  induction before with
  | nil => rfl
  | cons c before ih =>
    rw [List.cons_append, List.dropWhile_cons_of_pos (h c (List.mem_cons_self ..))]
    exact ih fun d hd => h d (List.mem_cons_of_mem _ hd)

theorem Clear.dropWhile_eq {cs : List Char} (h : Clear cs) : cs.dropWhile isBlank = cs := by
  cases cs with
  | nil => rfl
  | cons c cs => exact List.dropWhile_cons_of_neg (by simp [h c (List.mem_cons_self ..)])

theorem Clear.dropWhile_append {cs : List Char} (h : Clear cs) (hne : cs ≠ [])
    (after : List Char) : (cs ++ after).dropWhile isBlank = cs ++ after := by
  cases cs with
  | nil => exact absurd rfl hne
  | cons c cs => exact List.dropWhile_cons_of_neg (by simp [h c (List.mem_cons_self ..)])

/-- The blanks around a text without any are taken off. -/
theorem trim_eq_of_clear {before cs after : List Char} (hbefore : AllBlank before)
    (hafter : AllBlank after) (hclear : Clear cs) (hne : cs ≠ []) :
    trim (before ++ cs ++ after) = cs := by
  have hreversed : Clear cs.reverse := fun c hc => hclear c (List.mem_reverse.mp hc)
  have hblank : AllBlank after.reverse := fun c hc => hafter c (List.mem_reverse.mp hc)
  unfold trim
  rw [List.append_assoc, dropWhile_append_of_allBlank hbefore, hclear.dropWhile_append hne,
    List.reverse_append, dropWhile_append_of_allBlank hblank, hreversed.dropWhile_eq,
    List.reverse_reverse]

/-- The visible characters of ASCII are no blanks. -/
theorem isBlank_eq_false {c : Char} (hlow : 33 ≤ c.toNat) (hhigh : c.toNat ≤ 126) :
    isBlank c = false := by
  simp [isBlank, blankRanges]
  omega

/-- Neither are those that become visible ones of ASCII in lower case. -/
theorem isBlank_eq_false_of_toLower {c : Char} (hlow : 33 ≤ c.toLower.toNat)
    (hhigh : c.toLower.toNat ≤ 126) : isBlank c = false := by
  unfold Char.toLower at hlow hhigh
  split at hlow
  · next hcapital =>
    have h65 : 65 ≤ c.toNat := hcapital.1
    have h90 : c.toNat ≤ 90 := hcapital.2
    exact isBlank_eq_false (by omega) (by omega)
  · next hcapital =>
    rw [dif_neg hcapital] at hhigh
    exact isBlank_eq_false hlow hhigh

end Text

/-! ## Digits -/

namespace Numeral

theorem toNat_toLower (c : Char) :
    c.toLower.toNat = if 65 ≤ c.toNat ∧ c.toNat ≤ 90 then c.toNat + 32 else c.toNat := by
  unfold Char.toLower
  split
  · next h =>
    have hlow : 65 ≤ c.toNat := h.1
    have hhigh : c.toNat ≤ 90 := h.2
    rw [if_pos ⟨hlow, hhigh⟩]
    show (c.val + 32).toNat = _
    rw [UInt32.toNat_add]
    show (c.toNat + 32) % 4294967296 = _
    omega
  · next h => exact (if_neg h).symm

theorem toNat_digitChar {d : Nat} (h : d < 16) :
    d.digitChar.toNat = if d < 10 then d + 48 else d + 87 := by
  revert d
  decide

theorem toLower_digitChar {d : Nat} (h : d < 16) : d.digitChar.toLower = d.digitChar := by
  revert d
  decide

/-- The digits of a radix are those that numbers are written with, in either case. -/
theorem digit?_eq_some_iff {radix : Nat} (hradix : radix ≤ 16) {c : Char} {d : Nat} :
    digit? radix c = some d ↔ d < radix ∧ c.toLower = d.digitChar := by
  have hvalue : digit? radix c = some d ↔ d < radix ∧
      (48 ≤ c.toNat ∧ c.toNat ≤ 57 ∧ d + 48 = c.toNat ∨
        97 ≤ c.toNat ∧ c.toNat ≤ 122 ∧ d + 87 = c.toNat ∨
        65 ≤ c.toNat ∧ c.toNat ≤ 90 ∧ d + 55 = c.toNat) := by
    have hle (a b : Char) : a ≤ b ↔ a.toNat ≤ b.toNat := Iff.rfl
    simp only [digit?, Option.filter_eq_some_iff, decide_eq_true_eq, hle, Char.reduceToNat]
    split_ifs <;> simp <;> omega
  rw [hvalue]
  refine and_congr_right fun hlt => ?_
  rw [← Char.toNat_inj, toNat_toLower, toNat_digitChar (by omega)]
  split_ifs <;> omega

/-- A text is a number written in a radix: digits in either case, with any number of zeros in
front. -/
def Spells (radix : Nat) (cs : List Char) (n : Nat) : Prop :=
  ∃ zeros, cs.map Char.toLower = List.replicate zeros '0' ++ Nat.toDigits radix n

theorem digits?_append_singleton (radix : Nat) (cs : List Char) (c : Char) :
    digits? radix (cs ++ [c]) =
      (digits? radix cs).bind fun n => (digit? radix c).map (n * radix + ·) := by
  unfold digits?
  rw [List.foldl_append, List.foldl_cons, List.foldl_nil]
  cases List.foldl _ (some 0) cs with
  | none => rfl
  | some n => cases digit? radix c <;> rfl

theorem Spells.append_singleton {radix : Nat} (hradix : 1 < radix) {cs : List Char} {n : Nat}
    (h : Spells radix cs n) {c : Char} {d : Nat} (hd : d < radix) (hc : c.toLower = d.digitChar) :
    Spells radix (cs ++ [c]) (n * radix + d) := by
  obtain ⟨zeros, hzeros⟩ := h
  have hmap : (cs ++ [c]).map Char.toLower =
      List.replicate zeros '0' ++ (Nat.toDigits radix n ++ Nat.toDigits radix d) := by
    rw [List.map_append, hzeros, Nat.toDigits_of_lt_base hd, List.append_assoc]
    simp [hc]
  rcases Nat.eq_zero_or_pos n with rfl | hpos
  · -- a zero was read so far, and it is one more in front
    refine ⟨zeros + 1, ?_⟩
    rw [hmap, Nat.toDigits_zero, Nat.zero_mul, Nat.zero_add, List.replicate_succ',
      List.append_assoc]
  · refine ⟨zeros, ?_⟩
    rw [hmap, Nat.toDigits_append_toDigits hradix hpos hd, Nat.mul_comm]

theorem digits?_replicate_append (radix zeros : Nat) (cs : List Char) (hradix : 0 < radix) :
    digits? radix (List.replicate zeros '0' ++ cs) = digits? radix cs := by
  induction zeros with
  | zero => rfl
  | succ zeros ih =>
    have hzero : digit? radix '0' = some 0 := by simp [digit?, hradix]
    rw [List.replicate_succ, List.cons_append, ← ih]
    unfold digits?
    rw [List.foldl_cons, hzero]
    simp

theorem digit?_toLower {radix : Nat} (hradix : radix ≤ 16) (c : Char) :
    digit? radix c.toLower = digit? radix c := by
  have hlower : c.toLower.toLower = c.toLower := by
    rw [← Char.toNat_inj, toNat_toLower c.toLower, toNat_toLower c]
    split_ifs <;> omega
  ext d
  rw [digit?_eq_some_iff hradix, digit?_eq_some_iff hradix, hlower]

theorem digits?_map_toLower {radix : Nat} (hradix : radix ≤ 16) (cs : List Char) :
    digits? radix (cs.map Char.toLower) = digits? radix cs := by
  unfold digits?
  simp only [List.foldl_map, digit?_toLower hradix]

theorem digits?_toDigits {radix : Nat} (hlow : 1 < radix) (hhigh : radix ≤ 16) (n : Nat) :
    digits? radix (Nat.toDigits radix n) = some n := by
  induction n using Nat.strong_induction_on with
  | _ n ih =>
    have hlast {d : Nat} (hd : d < radix) : digit? radix d.digitChar = some d :=
      (digit?_eq_some_iff hhigh).mpr ⟨hd, toLower_digitChar (by omega)⟩
    rcases Nat.lt_or_ge n radix with hlt | hge
    · rw [Nat.toDigits_of_lt_base hlt, ← List.nil_append [n.digitChar], digits?_append_singleton,
        hlast hlt]
      simp [digits?]
    · rw [Nat.toDigits_of_base_le hlow hge, digits?_append_singleton,
        ih (n / radix) (Nat.div_lt_self (by omega) hlow), hlast (Nat.mod_lt n (by omega))]
      simp [Nat.div_add_mod']

/-- Digits are read as the number that they spell. -/
theorem digits?_eq_some_iff {radix : Nat} (hlow : 1 < radix) (hhigh : radix ≤ 16)
    {cs : List Char} (hne : cs ≠ []) {n : Nat} : digits? radix cs = some n ↔ Spells radix cs n := by
  constructor
  · intro h
    induction cs using List.reverseRecOn generalizing n with
    | nil => exact absurd rfl hne
    | append_singleton cs c ih =>
      rw [digits?_append_singleton] at h
      obtain ⟨front, hfront, hlast⟩ := Option.bind_eq_some_iff.mp h
      obtain ⟨d, hd, rfl⟩ := Option.map_eq_some_iff.mp hlast
      obtain ⟨hlt, hc⟩ := (digit?_eq_some_iff hhigh).mp hd
      rcases eq_or_ne cs [] with rfl | hcs
      · -- one digit spells itself
        cases hfront
        refine ⟨0, ?_⟩
        rw [Nat.zero_mul, Nat.zero_add, Nat.toDigits_of_lt_base hlt]
        simp [hc]
      · exact (ih hcs hfront).append_singleton hlow hlt hc
  · rintro ⟨zeros, hzeros⟩
    rw [← digits?_map_toLower hhigh, hzeros, digits?_replicate_append radix zeros _ (by omega)]
    exact digits?_toDigits hlow hhigh n

theorem Spells.ne_nil {radix : Nat} {cs : List Char} {n : Nat} (h : Spells radix cs n) :
    cs ≠ [] := by
  obtain ⟨zeros, hzeros⟩ := h
  rintro rfl
  have hlength := congrArg List.length hzeros
  have hpos : 0 < (Nat.toDigits radix n).length := Nat.length_toDigits_pos
  simp only [List.map_nil, List.length_nil, List.length_append] at hlength
  omega

/-- The usual notation of a number spells it. -/
theorem spells_toDigits {radix : Nat} (hlow : 1 < radix) (hhigh : radix ≤ 16) (n : Nat) :
    Spells radix (Nat.toDigits radix n) n := by
  have hne : Nat.toDigits radix n ≠ [] := List.ne_nil_of_length_pos Nat.length_toDigits_pos
  exact (digits?_eq_some_iff hlow hhigh hne).mp (digits?_toDigits hlow hhigh n)

/-- What a number is spelled with are digits. -/
theorem Spells.digit {radix : Nat} (hlow : 1 < radix) (hhigh : radix ≤ 16) {cs : List Char}
    {n : Nat} (h : Spells radix cs n) {c : Char} (hc : c ∈ cs) :
    ∃ d < radix, c.toLower = d.digitChar := by
  have hread := (digits?_eq_some_iff hlow hhigh h.ne_nil).mpr h
  clear h
  induction cs using List.reverseRecOn generalizing n with
  | nil => cases hc
  | append_singleton cs last ih =>
    rw [digits?_append_singleton] at hread
    obtain ⟨front, hfront, hlast⟩ := Option.bind_eq_some_iff.mp hread
    obtain ⟨d, hd, -⟩ := Option.map_eq_some_iff.mp hlast
    rcases List.mem_append.mp hc with hc | hc
    · exact ih hc hfront
    · rw [List.mem_singleton.mp hc]
      exact ⟨d, (digit?_eq_some_iff hhigh).mp hd⟩

/-! ## Signed integers -/

/-- An optional sign, and whether it is a minus. -/
inductive Sign : List Char → Bool → Prop
  | none : Sign [] false
  | plus : Sign ['+'] false
  | minus : Sign ['-'] true

/-- A text that does not begin with a sign. -/
def Unsigned (cs : List Char) : Prop :=
  ∀ c ∈ cs.head?, c ≠ '+' ∧ c ≠ '-'

theorem exists_sign (cs : List Char) :
    ∃ sign, Sign sign (splitSign cs).1 ∧ cs = sign ++ (splitSign cs).2 := by
  unfold splitSign
  split
  · exact ⟨_, .minus, rfl⟩
  · exact ⟨_, .plus, rfl⟩
  · exact ⟨_, .none, rfl⟩

theorem Sign.splitSign_append {sign rest : List Char} {negative : Bool} (h : Sign sign negative)
    (hrest : Unsigned rest) : splitSign (sign ++ rest) = (negative, rest) := by
  cases h with
  | plus => rfl
  | minus => rfl
  | none =>
    rw [List.nil_append]
    unfold splitSign
    split
    · exact absurd rfl (hrest '-' rfl).2
    · exact absurd rfl (hrest '+' rfl).1
    · rfl

theorem Spells.unsigned {radix : Nat} (hlow : 1 < radix) (hhigh : radix ≤ 16) {cs : List Char}
    {n : Nat} (h : Spells radix cs n) : Unsigned cs := by
  intro c hc
  obtain ⟨d, hd, hlower⟩ := h.digit hlow hhigh (List.mem_of_mem_head? hc)
  have hvalue := congrArg Char.toNat hlower
  rw [toNat_digitChar (by omega)] at hvalue
  constructor <;>
  · rintro rfl
    simp at hvalue
    split at hvalue <;> omega

/-- A text is an integer written in a radix, with an optional sign in front. -/
def SpellsInt (radix : Nat) (cs : List Char) (k : Int) : Prop :=
  ∃ sign negative digits n, Sign sign negative ∧ Spells radix digits n ∧ cs = sign ++ digits ∧
    k = if negative then -(n : Int) else n

/-- A text spells one integer at most. -/
theorem SpellsInt.unique {radix : Nat} (hlow : 1 < radix) (hhigh : radix ≤ 16) {cs : List Char}
    {k l : Int} (hk : SpellsInt radix cs k) (hl : SpellsInt radix cs l) : k = l := by
  obtain ⟨sign, negative, digits, n, hsign, hspells, rfl, rfl⟩ := hk
  obtain ⟨sign', negative', digits', n', hsign', hspells', hcs, rfl⟩ := hl
  have hsplit := hsign.splitSign_append (hspells.unsigned hlow hhigh)
  rw [hcs, hsign'.splitSign_append (hspells'.unsigned hlow hhigh)] at hsplit
  cases hsplit
  have hread := (digits?_eq_some_iff hlow hhigh hspells.ne_nil).mpr hspells
  rw [(digits?_eq_some_iff hlow hhigh hspells.ne_nil).mpr hspells'] at hread
  cases hread
  rfl

/-- A magnitude with a sign is an integer of 64 bits if it is in range, and then it is that
integer. -/
theorem ofMagnitude_eq_some_iff {negative : Bool} {n : Nat} {k : Int64} :
    ((if negative then if n ≤ 1 <<< 63 then some (Int64.ofInt (-n)) else none
      else if n < 1 <<< 63 then some (Int64.ofInt n) else none) = some k) ↔
      k.toInt = if negative then -(n : Int) else n := by
  have hlow := k.le_toInt
  have hhigh := k.toInt_lt
  have hinRange {a : Int} (h : -2 ^ 63 ≤ a) (h' : a < 2 ^ 63) :
      some (Int64.ofInt a) = some k ↔ k.toInt = a := by
    rw [Option.some.injEq, ← Int64.toInt_inj, Int64.toInt_ofInt_of_le h h']
    exact eq_comm
  simp only [Nat.reduceShiftLeft]
  cases negative with
  | true =>
    simp only [if_true]
    split
    · exact hinRange (by omega) (by omega)
    · simp only [reduceCtorEq, false_iff]
      omega
  | false =>
    simp only [Bool.false_eq_true, if_false]
    split
    · exact hinRange (by omega) (by omega)
    · simp only [reduceCtorEq, false_iff]
      omega

/-- An integer is read where a text spells one that fits in 64 bits. -/
theorem readInt?_eq_some_iff {radix : Nat} (hlow : 1 < radix) (hhigh : radix ≤ 16)
    {cs : List Char} {k : Int64} : readInt? radix cs = some k ↔ SpellsInt radix cs k.toInt := by
  constructor
  · intro h
    obtain ⟨sign, hsign, hcs⟩ := exists_sign cs
    unfold readInt? at h
    generalize splitSign cs = parts at h hsign hcs
    obtain ⟨negative, digits⟩ := parts
    dsimp only at h hsign hcs
    split at h
    · cases h
    · next hne =>
      obtain ⟨n, hread, hfits⟩ := Option.bind_eq_some_iff.mp h
      have hspells := (digits?_eq_some_iff hlow hhigh (by simpa using hne)).mp hread
      exact ⟨sign, negative, digits, n, hsign, hspells, hcs, ofMagnitude_eq_some_iff.mp hfits⟩
  · rintro ⟨sign, negative, digits, n, hsign, hspells, rfl, hk⟩
    unfold readInt?
    rw [hsign.splitSign_append (hspells.unsigned hlow hhigh)]
    dsimp only
    rw [if_neg (by simpa using hspells.ne_nil),
      (digits?_eq_some_iff hlow hhigh hspells.ne_nil).mpr hspells]
    exact ofMagnitude_eq_some_iff.mpr hk

end Numeral
end AdaptiveScript
