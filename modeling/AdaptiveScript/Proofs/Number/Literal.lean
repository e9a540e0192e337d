import AdaptiveScript.Proofs.Number.Spelling
import Mathlib.Data.Bool.AllAny

/-!
# Numerals

Which texts are numbers.  Code writes numbers as decimals, with an optional fraction and an
optional exponent, or as hexadecimal integers (`Numeral.IsNumeral`).  The conversion of texts
reads these, except for hexadecimal integers out of range, and it reads two kinds of text that
are no numerals: the words for infinity and for what is no number, and hexadecimal integers
with a sign after the mark.  `toNumber_text_accepts` says that this is all.

Decimal integers are read as integers wherever they fit in 64 bits, so the text of every
integer is read back as that integer (`toNumber_integer_text`).
-/

namespace AdaptiveScript
namespace Numeral

/-! ## The grammar -/

/-- A text of decimal digits. -/
def Digits (cs : List Char) : Prop :=
  ∀ c ∈ cs, c.isDigit = true

/-- Decimal digits, at least one of them, with an optional point. -/
inductive Mantissa : List Char → Prop
  | whole {digits : List Char} : digits ≠ [] → Digits digits → Mantissa digits
  | point {whole fraction : List Char} : whole ++ fraction ≠ [] → Digits whole →
    Digits fraction → Mantissa (whole ++ '.' :: fraction)

/-- An optional exponent. -/
inductive Exponent : List Char → Prop
  | none : Exponent []
  | some {mark : Char} {sign digits : List Char} {negative : Bool} : mark = 'e' ∨ mark = 'E' →
    Sign sign negative → digits ≠ [] → Digits digits → Exponent (mark :: (sign ++ digits))

/-- An optional sign, digits with an optional fraction, and an optional exponent. -/
def IsDecimal (cs : List Char) : Prop :=
  ∃ sign negative mantissa exponent, Sign sign negative ∧ Mantissa mantissa ∧ Exponent exponent ∧
    cs = sign ++ (mantissa ++ exponent)

/-- A hexadecimal mark, a sign, and an integer of hexadecimal digits. -/
def IsHex (sign cs : List Char) (k : Int) : Prop :=
  ∃ mark negative digits n, (mark = 'x' ∨ mark = 'X') ∧ Sign sign negative ∧ Spells 16 digits n ∧
    cs = '0' :: mark :: (sign ++ digits) ∧ k = if negative then -(n : Int) else n

/-- The numbers that code may write: decimals, and hexadecimal integers without a sign. -/
def IsNumeral (cs : List Char) : Prop :=
  IsDecimal cs ∨ ∃ k, IsHex [] cs k

/-- A word that stands for a float, in any case, with an optional sign. -/
def IsWord (cs : List Char) : Prop :=
  ∃ sign negative word, Sign sign negative ∧
    word.map Char.toLower ∈ ["inf".toList, "infinity".toList, "nan".toList] ∧ cs = sign ++ word

/-- An integer fits in 64 bits. -/
def Fits (k : Int) : Prop :=
  Int64.minValue.toInt ≤ k ∧ k ≤ Int64.maxValue.toInt

theorem fits_toInt (n : Int64) : Fits n.toInt :=
  ⟨n.minValue_le_toInt, n.toInt_le⟩

theorem Fits.toInt_ofInt {k : Int} (h : Fits k) : (Int64.ofInt k).toInt = k := by
  obtain ⟨hlow, hhigh⟩ := h
  rw [Int64.toInt_minValue] at hlow
  rw [Int64.toInt_maxValue] at hhigh
  exact Int64.toInt_ofInt_of_le hlow (by omega)

/-! ## Decimals -/

theorem isDigit_iff {c : Char} : c.isDigit = true ↔ ∃ d, digit? 10 c = some d := by
  have hdigit : c.isDigit = true ↔ 48 ≤ c.toNat ∧ c.toNat ≤ 57 := by
    simp only [Char.isDigit, Bool.and_eq_true, decide_eq_true_eq]
    rfl
  have hle (a b : Char) : a ≤ b ↔ a.toNat ≤ b.toNat := Iff.rfl
  simp only [hdigit, digit?, Option.filter_eq_some_iff, decide_eq_true_eq, hle, Char.reduceToNat]
  split_ifs <;> simp <;> omega

/-- Decimal digits are what the reader of digits takes. -/
theorem digits_iff (cs : List Char) : Digits cs ↔ ∃ n, digits? 10 cs = some n := by
  induction cs using List.reverseRecOn with
  | nil => exact ⟨fun _ => ⟨0, rfl⟩, fun _ _ hc => absurd hc List.not_mem_nil⟩
  | append_singleton cs c ih =>
    have hsplit : Digits (cs ++ [c]) ↔ Digits cs ∧ c.isDigit = true := by
      simp [Digits, or_imp, forall_and]
    rw [hsplit, ih, isDigit_iff, digits?_append_singleton]
    simp [Option.bind_eq_some_iff]

/-- A text that does not begin with a digit. -/
def Ends (rest : List Char) : Prop :=
  ∀ c ∈ rest.head?, c.isDigit = false

theorem Digits.takeDigits_append {digits rest : List Char} (h : Digits digits) (hrest : Ends rest) :
    takeDigits (digits ++ rest) = (digits, rest) := by
  unfold takeDigits
  rw [List.takeWhile_append_of_pos h, List.dropWhile_append_of_pos h]
  cases rest with
  | nil => simp
  | cons c rest =>
    have hc := hrest c rfl
    rw [List.takeWhile_cons_of_neg (by simp [hc]), List.dropWhile_cons_of_neg (by simp [hc]),
      List.append_nil]

theorem digits_takeDigits (cs : List Char) : Digits (takeDigits cs).1 :=
  fun _ hc => List.mem_takeWhile_imp hc

theorem takeDigits_append (cs : List Char) : (takeDigits cs).1 ++ (takeDigits cs).2 = cs :=
  List.takeWhile_append_dropWhile

theorem Digits.unsigned {cs : List Char} (h : Digits cs) : Unsigned cs := by
  intro c hc
  have hdigit := h c (List.mem_of_mem_head? hc)
  constructor <;>
  · rintro rfl
    simp at hdigit

theorem exponent?_iff (cs : List Char) : (∃ e, exponent? cs = some e) ↔ Exponent cs := by
  constructor
  · rintro ⟨e, he⟩
    cases cs with
    | nil => exact .none
    | cons mark cs =>
      rw [exponent?] at he
      split at he
      · next hmark =>
        obtain ⟨sign, hsign, hcs⟩ := exists_sign cs
        generalize splitSign cs = parts at he hsign hcs
        obtain ⟨negative, digits⟩ := parts
        dsimp only at he hsign hcs
        split at he
        · cases he
        · next hne =>
          obtain ⟨_, hread, -⟩ := Option.map_eq_some_iff.mp he
          obtain ⟨n, hn, -⟩ := Option.bind_eq_some_iff.mp hread
          rw [hcs]
          exact .some hmark hsign (by simpa using hne) ((digits_iff digits).mpr ⟨n, hn⟩)
      · cases he
  · intro h
    cases h with
    | none => exact ⟨0, rfl⟩
    | @some mark sign digits negative hmark hsign hne hdigits =>
      obtain ⟨n, hn⟩ := (digits_iff digits).mp hdigits
      rw [exponent?, if_pos hmark, hsign.splitSign_append hdigits.unsigned]
      dsimp only
      rw [if_neg (by simpa using hne), hn]
      exact ⟨_, rfl⟩

theorem Exponent.ends {cs : List Char} (h : Exponent cs) : Ends cs := by
  cases h with
  | none => rintro _ ⟨⟩
  | some hmark _ _ _ =>
    rintro _ ⟨⟩
    rcases hmark with rfl | rfl <;> decide

/-- A decimal is put together from digits on either side of the point and an exponent. -/
theorem assemble_iff {whole fraction rest : List Char} (hwhole : Digits whole)
    (hfraction : Digits fraction) :
    (∃ d, (if whole.isEmpty && fraction.isEmpty then none else do
      let digits ← digits? 10 (whole ++ fraction)
      let exponent ← exponent? rest
      return (⟨digits, exponent - fraction.length⟩ : Decimal)) = some d) ↔
      whole ++ fraction ≠ [] ∧ Exponent rest := by
  have hdigits : Digits (whole ++ fraction) := fun c hc =>
    (List.mem_append.mp hc).elim (hwhole c) (hfraction c)
  obtain ⟨n, hn⟩ := (digits_iff _).mp hdigits
  have hempty : (whole.isEmpty && fraction.isEmpty) = true ↔ whole ++ fraction = [] := by simp
  rw [← exponent?_iff, hn]
  split
  · next h => simp [hempty.mp h]
  · next h =>
    cases exponent? rest <;> simp [hempty.not.mp h]

/-- The reader of decimals takes a mantissa and an exponent. -/
theorem decimal?_iff (cs : List Char) : (∃ d, decimal? cs = some d) ↔
    ∃ mantissa exponent, Mantissa mantissa ∧ Exponent exponent ∧ cs = mantissa ++ exponent := by
  constructor
  · intro hd
    have hwhole := digits_takeDigits cs
    have hcs := takeDigits_append cs
    unfold decimal? at hd
    generalize takeDigits cs = parts at hd hwhole hcs
    obtain ⟨whole, afterWhole⟩ := parts
    dsimp only at hd hwhole hcs
    split at hd
    · next more =>
      obtain ⟨hne, hexponent⟩ := (assemble_iff hwhole (digits_takeDigits more)).mp hd
      refine ⟨_, _, .point hne hwhole (digits_takeDigits more), hexponent, ?_⟩
      rw [List.append_assoc, List.cons_append, takeDigits_append, hcs]
    · obtain ⟨hne, hexponent⟩ := (assemble_iff hwhole fun _ hc => absurd hc List.not_mem_nil).mp hd
      exact ⟨whole, afterWhole, .whole (by simpa using hne) hwhole, hexponent, hcs.symm⟩
  · rintro ⟨mantissa, exponent, hmantissa, hexponent, rfl⟩
    unfold decimal?
    cases hmantissa with
    | whole hne hdigits =>
      rw [hdigits.takeDigits_append hexponent.ends]
      have hnil : Digits [] := fun _ hc => absurd hc List.not_mem_nil
      have hassemble := (@assemble_iff _ _ exponent hdigits hnil).mpr
        ⟨by simpa using hne, hexponent⟩
      -- an exponent does not begin with a point
      cases hexponent with
      | none => exact hassemble
      | some hmark _ _ _ => rcases hmark with rfl | rfl <;> exact hassemble
    | @point whole fraction hne hwhole hfraction =>
      have hends : Ends ('.' :: (fraction ++ exponent)) := by
        rintro _ ⟨⟩
        rfl
      rw [List.append_assoc, List.cons_append, hwhole.takeDigits_append hends]
      simp only [hfraction.takeDigits_append hexponent.ends]
      exact (assemble_iff hwhole hfraction).mpr ⟨hne, hexponent⟩

/-! ## Floats -/

/-- A text that a word in any case is. -/
theorem word?_iff (cs : List Char) : (∃ x, word? cs = some x) ↔
    cs.map Char.toLower ∈ ["inf".toList, "infinity".toList, "nan".toList] := by
  have hword (w : String) : String.ofList (cs.map Char.toLower) = w ↔
      cs.map Char.toLower = w.toList := by
    constructor
    · rintro rfl
      exact String.toList_ofList.symm
    · intro h
      rw [h, String.ofList_toList]
  simp only [List.mem_cons, List.not_mem_nil, or_false, ← hword]
  unfold word?
  split <;> simp_all

theorem readFloat?_of_splitSign {cs body : List Char} {negative : Bool}
    (h : splitSign cs = (negative, body)) : (∃ x, readFloat? cs = some x) ↔
      (∃ x, word? body = some x) ∨ ∃ d, decimal? body = some d := by
  unfold readFloat?
  rw [h]
  dsimp only
  cases word? body <;> cases decimal? body <;> simp

/-- The letters of words. -/
theorem mem_letters {word : List Char} {c : Char} (hc : c ∈ word)
    (h : word.map Char.toLower ∈ ["inf".toList, "infinity".toList, "nan".toList]) :
    c.toLower ∈ "infityna".toList := by
  have hmem := List.mem_map_of_mem (f := Char.toLower) hc
  have hsub : ∀ w ∈ ["inf".toList, "infinity".toList, "nan".toList], ∀ d ∈ w,
      d ∈ "infityna".toList := by
    simp only [← List.all_iff_forall_prop]
    decide
  exact hsub _ h _ hmem

theorem Mantissa.unsigned {mantissa : List Char} (h : Mantissa mantissa) (rest : List Char) :
    Unsigned (mantissa ++ rest) := by
  cases h with
  | whole hne hdigits =>
    obtain ⟨c, cs, rfl⟩ := List.exists_cons_of_ne_nil hne
    exact hdigits.unsigned
  | @point whole fraction _ hwhole _ =>
    cases whole with
    | nil =>
      rintro _ ⟨⟩
      decide
    | cons c whole => exact hwhole.unsigned

theorem unsigned_of_word {word : List Char}
    (h : word.map Char.toLower ∈ ["inf".toList, "infinity".toList, "nan".toList]) :
    Unsigned word := by
  intro c hc
  have hletter := mem_letters (List.mem_of_mem_head? hc) h
  constructor <;>
  · rintro rfl
    revert hletter
    decide

/-- The reader of floats takes words and decimals. -/
theorem readFloat?_iff (cs : List Char) : (∃ x, readFloat? cs = some x) ↔
    IsWord cs ∨ IsDecimal cs := by
  constructor
  · intro h
    obtain ⟨sign, hsign, hcs⟩ := exists_sign cs
    have hsplit : splitSign cs = ((splitSign cs).1, (splitSign cs).2) := rfl
    rcases (readFloat?_of_splitSign hsplit).mp h with hword | hdecimal
    · exact .inl ⟨sign, _, _, hsign, (word?_iff _).mp hword, hcs⟩
    · obtain ⟨mantissa, exponent, hmantissa, hexponent, hrest⟩ := (decimal?_iff _).mp hdecimal
      exact .inr ⟨sign, _, mantissa, exponent, hsign, hmantissa, hexponent, by rw [← hrest, ← hcs]⟩
  · rintro (⟨sign, negative, word, hsign, hword, rfl⟩ |
      ⟨sign, negative, mantissa, exponent, hsign, hmantissa, hexponent, rfl⟩)
    · rw [readFloat?_of_splitSign (hsign.splitSign_append (unsigned_of_word hword))]
      exact .inl ((word?_iff word).mpr hword)
    · rw [readFloat?_of_splitSign (hsign.splitSign_append (hmantissa.unsigned exponent))]
      exact .inr ((decimal?_iff _).mpr ⟨mantissa, exponent, hmantissa, hexponent, rfl⟩)

/-! ## Characters -/

/-- The characters of a decimal. -/
theorem IsDecimal.mem {cs : List Char} (h : IsDecimal cs) {c : Char} (hc : c ∈ cs) :
    c.isDigit = true ∨ c ∈ ['+', '-', '.', 'e', 'E'] := by
  obtain ⟨sign, negative, mantissa, exponent, hsign, hmantissa, hexponent, rfl⟩ := h
  have hsigns {sign : List Char} {negative : Bool} (hsign : Sign sign negative) (hc : c ∈ sign) :
      c ∈ ['+', '-', '.', 'e', 'E'] := by
    cases hsign <;> simp_all
  rcases List.mem_append.mp hc with hc | hc
  · exact .inr (hsigns hsign hc)
  · rcases List.mem_append.mp hc with hc | hc
    · cases hmantissa with
      | whole _ hdigits => exact .inl (hdigits c hc)
      | point _ hwhole hfraction =>
        rcases List.mem_append.mp hc with hc | hc
        · exact .inl (hwhole c hc)
        · rcases List.mem_cons.mp hc with rfl | hc
          · exact .inr (by decide)
          · exact .inl (hfraction c hc)
    · cases hexponent with
      | none => cases hc
      | some hmark hsign _ hdigits =>
        rcases List.mem_cons.mp hc with rfl | hc
        · rcases hmark with rfl | rfl <;> exact .inr (by decide)
        · rcases List.mem_append.mp hc with hc | hc
          · exact .inr (hsigns hsign hc)
          · exact .inl (hdigits c hc)

/-- The characters of a word. -/
theorem IsWord.mem {cs : List Char} (h : IsWord cs) {c : Char} (hc : c ∈ cs) :
    c ∈ ['+', '-'] ∨ c.toLower ∈ "infityna".toList := by
  obtain ⟨sign, negative, word, hsign, hword, rfl⟩ := h
  rcases List.mem_append.mp hc with hc | hc
  · left
    cases hsign <;> simp_all
  · exact .inr (mem_letters hc hword)

/-- The characters of a hexadecimal integer. -/
theorem IsHex.mem {sign cs : List Char} {k : Int} (h : IsHex sign cs k) {c : Char} (hc : c ∈ cs) :
    c ∈ ['0', 'x', 'X', '+', '-'] ∨ ∃ d < 16, c.toLower = d.digitChar := by
  obtain ⟨mark, negative, digits, n, hmark, hsign, hspells, rfl, -⟩ := h
  rcases List.mem_cons.mp hc with rfl | hc
  · exact .inl (by decide)
  rcases List.mem_cons.mp hc with rfl | hc
  · rcases hmark with rfl | rfl <;> exact .inl (by decide)
  rcases List.mem_append.mp hc with hc | hc
  · left
    cases hsign <;> simp_all
  · exact .inr (hspells.digit (by decide) (by decide) hc)

theorem IsDecimal.clear {cs : List Char} (h : IsDecimal cs) : Text.Clear cs := by
  intro c hc
  rcases h.mem hc with hdigit | hmem
  · simp only [Char.isDigit, Bool.and_eq_true, decide_eq_true_eq] at hdigit
    have hlow : 48 ≤ c.toNat := hdigit.1
    have hhigh : c.toNat ≤ 57 := hdigit.2
    exact Text.isBlank_eq_false (by omega) (by omega)
  · have hmarks : ∀ d ∈ ['+', '-', '.', 'e', 'E'], Text.isBlank d = false :=
      List.all_iff_forall_prop.mp (by decide)
    exact hmarks c hmem

theorem IsWord.clear {cs : List Char} (h : IsWord cs) : Text.Clear cs := by
  intro c hc
  rcases h.mem hc with hmem | hmem
  · have hmarks : ∀ d ∈ ['+', '-'], Text.isBlank d = false :=
      List.all_iff_forall_prop.mp (by decide)
    exact hmarks c hmem
  · have hletters : ∀ d ∈ "infityna".toList, 33 ≤ d.toNat ∧ d.toNat ≤ 126 :=
      List.all_iff_forall_prop.mp (by decide)
    obtain ⟨hlow, hhigh⟩ := hletters _ hmem
    exact Text.isBlank_eq_false_of_toLower hlow hhigh

theorem IsHex.clear {sign cs : List Char} {k : Int} (h : IsHex sign cs k) : Text.Clear cs := by
  intro c hc
  rcases h.mem hc with hmem | ⟨d, hd, hlower⟩
  · have hmarks : ∀ d ∈ ['0', 'x', 'X', '+', '-'], Text.isBlank d = false :=
      List.all_iff_forall_prop.mp (by decide)
    exact hmarks c hmem
  · have hvalue := toNat_digitChar hd
    rw [← hlower] at hvalue
    split at hvalue <;> exact Text.isBlank_eq_false_of_toLower (by omega) (by omega)

theorem Mantissa.ne_nil {mantissa : List Char} (h : Mantissa mantissa) : mantissa ≠ [] := by
  cases h with
  | whole hne _ => exact hne
  | point _ _ _ => simp

theorem IsDecimal.ne_nil {cs : List Char} (h : IsDecimal cs) : cs ≠ [] := by
  obtain ⟨sign, _, mantissa, exponent, _, hmantissa, _, rfl⟩ := h
  simp [hmantissa.ne_nil]

theorem IsWord.exists_letter {cs : List Char} (h : IsWord cs) :
    ∃ c ∈ cs, c.toLower ∈ "infityna".toList := by
  obtain ⟨sign, _, word, _, hword, rfl⟩ := h
  cases word with
  | nil => exact absurd hword (by decide)
  | cons c word =>
    exact ⟨c, List.mem_append_right _ (List.mem_cons_self ..),
      mem_letters (List.mem_cons_self ..) hword⟩

theorem IsWord.ne_nil {cs : List Char} (h : IsWord cs) : cs ≠ [] := by
  obtain ⟨c, hc, -⟩ := h.exists_letter
  exact List.ne_nil_of_mem hc

theorem IsHex.ne_nil {sign cs : List Char} {k : Int} (h : IsHex sign cs k) : cs ≠ [] := by
  obtain ⟨mark, _, digits, n, _, _, _, rfl, _⟩ := h
  exact List.cons_ne_nil _ _

/-! ## Conversion -/

theorem hexDigits?_eq_some_iff {cs digits : List Char} : Value.hexDigits? cs = some digits ↔
    ∃ mark, (mark = 'x' ∨ mark = 'X') ∧ cs = '0' :: mark :: digits := by
  constructor
  · intro h
    unfold Value.hexDigits? at h
    split at h
    · cases h
      exact ⟨'x', .inl rfl, rfl⟩
    · cases h
      exact ⟨'X', .inr rfl, rfl⟩
    · cases h
  · rintro ⟨mark, rfl | rfl, rfl⟩ <;> rfl

theorem readInt?_hex_iff {mark : Char} (hmark : mark = 'x' ∨ mark = 'X') {digits : List Char} :
    (∃ k, readInt? 16 digits = some k) ↔
      ∃ sign k, IsHex sign ('0' :: mark :: digits) k ∧ Fits k := by
  constructor
  · rintro ⟨k, hk⟩
    obtain ⟨sign, negative, body, n, hsign, hspells, rfl, hvalue⟩ :=
      (readInt?_eq_some_iff (by decide) (by decide)).mp hk
    exact ⟨sign, k.toInt, ⟨mark, negative, body, n, hmark, hsign, hspells, rfl, hvalue⟩,
      fits_toInt k⟩
  · rintro ⟨sign, k, ⟨mark', negative, body, n, -, hsign, hspells, heq, hvalue⟩, hfits⟩
    cases heq
    refine ⟨Int64.ofInt k, (readInt?_eq_some_iff (by decide) (by decide)).mpr ?_⟩
    rw [hfits.toInt_ofInt]
    exact ⟨sign, negative, body, n, hsign, hspells, rfl, hvalue⟩

/-- No hexadecimal mark stands in a decimal. -/
theorem IsDecimal.ne_mark {cs digits : List Char} (h : IsDecimal cs) {mark : Char}
    (hmark : mark = 'x' ∨ mark = 'X') : cs ≠ '0' :: mark :: digits := by
  rintro rfl
  have hmem := h.mem (List.mem_cons_of_mem _ (List.mem_cons_self ..))
  rcases hmark with rfl | rfl <;> revert hmem <;> decide

theorem IsDecimal.hexDigits?_eq_none {cs : List Char} (h : IsDecimal cs) :
    Value.hexDigits? cs = none := by
  by_contra hsome
  obtain ⟨digits, hdigits⟩ := Option.ne_none_iff_exists'.mp hsome
  obtain ⟨mark, hmark, hcs⟩ := hexDigits?_eq_some_iff.mp hdigits
  exact h.ne_mark hmark hcs

/-- A word does not begin with a digit. -/
theorem IsWord.ne_mark {cs digits : List Char} (h : IsWord cs) : cs ≠ '0' :: digits := by
  rintro rfl
  have hmem := h.mem (List.mem_cons_self ..)
  revert hmem
  decide

/-- Integers in decimal are decimals. -/
theorem SpellsInt.isDecimal {cs : List Char} {k : Int} (h : SpellsInt 10 cs k) : IsDecimal cs := by
  obtain ⟨sign, negative, digits, n, hsign, hspells, rfl, -⟩ := h
  have hread := (digits?_eq_some_iff (by decide) (by decide) hspells.ne_nil).mpr hspells
  exact ⟨sign, negative, digits, [], hsign, .whole hspells.ne_nil ((digits_iff _).mpr ⟨n, hread⟩),
    .none, by rw [List.append_nil]⟩

theorem parseNumber_of_mark {s : String} {mark : Char} (hmark : mark = 'x' ∨ mark = 'X')
    {digits : List Char} (h : Text.trim s.toList = '0' :: mark :: digits) :
    Value.parseNumber s = ((readInt? 16 digits).map Value.int).getD .nil := by
  unfold Value.parseNumber
  dsimp only
  rw [h, hexDigits?_eq_some_iff.mpr ⟨mark, hmark, rfl⟩]

theorem parseNumber_of_readInt {s : String} {k : Int64} {cs : List Char}
    (h : Text.trim s.toList = cs) (hread : readInt? 10 cs = some k) :
    Value.parseNumber s = .int k := by
  have hdecimal := ((readInt?_eq_some_iff (by decide) (by decide)).mp hread).isDecimal
  unfold Value.parseNumber
  dsimp only
  rw [h, hdecimal.hexDigits?_eq_none]
  dsimp only
  rw [hread]

theorem parseNumber_of_readFloat {s : String} {cs : List Char} (h : Text.trim s.toList = cs)
    (hmarked : Value.hexDigits? cs = none) (hread : readInt? 10 cs = none) :
    Value.parseNumber s = ((readFloat? cs).map Value.float).getD .nil := by
  unfold Value.parseNumber
  dsimp only
  rw [h, hmarked]
  dsimp only
  rw [hread]

/-- What is no number is nil. -/
theorem parseNumber_eq_nil {s : String} (h : (Value.parseNumber s).isNumber = false) :
    Value.parseNumber s = .nil := by
  generalize hcs : Text.trim s.toList = cs
  cases hmarked : Value.hexDigits? cs with
  | some digits =>
    obtain ⟨mark, hmark, rfl⟩ := hexDigits?_eq_some_iff.mp hmarked
    rw [parseNumber_of_mark hmark hcs] at h ⊢
    revert h
    cases readInt? 16 digits with
    | some k => rintro ⟨⟩
    | none => exact fun _ => rfl
  | none =>
    cases hread : readInt? 10 cs with
    | some k =>
      rw [parseNumber_of_readInt hcs hread] at h
      cases h
    | none =>
      rw [parseNumber_of_readFloat hcs hmarked hread] at h ⊢
      revert h
      cases readFloat? cs with
      | some x => rintro ⟨⟩
      | none => exact fun _ => rfl

/-- The texts that are read as numbers. -/
theorem isNumber_parseNumber_iff (s : String) : (Value.parseNumber s).isNumber = true ↔
    IsDecimal (Text.trim s.toList) ∨ IsWord (Text.trim s.toList) ∨
      ∃ sign k, IsHex sign (Text.trim s.toList) k ∧ Fits k := by
  generalize hcs : Text.trim s.toList = cs
  cases hmarked : Value.hexDigits? cs with
  | some digits =>
    obtain ⟨mark, hmark, rfl⟩ := hexDigits?_eq_some_iff.mp hmarked
    have hdecimal : ¬ IsDecimal ('0' :: mark :: digits) := fun h => h.ne_mark hmark rfl
    have hword : ¬ IsWord ('0' :: mark :: digits) := fun h => h.ne_mark rfl
    rw [← readInt?_hex_iff hmark, parseNumber_of_mark hmark hcs]
    cases readInt? 16 digits <;> simp [hdecimal, hword, Value.isNumber]
  | none =>
    have hhex : ¬ ∃ sign k, IsHex sign cs k ∧ Fits k := by
      rintro ⟨sign, k, ⟨mark, _, digits, _, hmark, _, _, rfl, _⟩, -⟩
      rw [hexDigits?_eq_some_iff.mpr ⟨mark, hmark, rfl⟩] at hmarked
      cases hmarked
    cases hread : readInt? 10 cs with
    | some k =>
      have hdecimal := ((readInt?_eq_some_iff (by decide) (by decide)).mp hread).isDecimal
      simp [parseNumber_of_readInt hcs hread, hdecimal, Value.isNumber]
    | none =>
      have hiff := readFloat?_iff cs
      rw [parseNumber_of_readFloat hcs hmarked hread]
      cases hx : readFloat? cs with
      | some x =>
        have hforms := hiff.mp ⟨x, hx⟩
        simp only [Option.map_some, Option.getD_some, Value.isNumber, true_iff]
        exact hforms.elim (fun h => .inr (.inl h)) .inl
      | none =>
        simp only [hx, reduceCtorEq, exists_false, false_iff, not_or] at hiff
        simp [hiff, hhex, Value.isNumber]

/-- The blanks around what is read as a number are taken off. -/
theorem trim_eq {s : String} {before cs after : List Char} (hbefore : Text.AllBlank before)
    (hafter : Text.AllBlank after) (hs : s.toList = before ++ cs ++ after)
    (h : IsDecimal cs ∨ IsWord cs ∨ ∃ sign k, IsHex sign cs k ∧ Fits k) :
    Text.trim s.toList = cs := by
  rw [hs]
  rcases h with h | h | ⟨sign, k, h, -⟩
  · exact Text.trim_eq_of_clear hbefore hafter h.clear h.ne_nil
  · exact Text.trim_eq_of_clear hbefore hafter h.clear h.ne_nil
  · exact Text.trim_eq_of_clear hbefore hafter h.clear h.ne_nil

theorem IsWord.not_isNumeral {cs : List Char} (h : IsWord cs) : ¬ IsNumeral cs := by
  rintro (hdecimal | ⟨k, mark, _, digits, _, _, _, _, hcs, _⟩)
  · -- the letters of a word do not stand in decimals
    obtain ⟨c, hc, hletter⟩ := h.exists_letter
    rcases hdecimal.mem hc with hdigit | hmark
    · simp only [Char.isDigit, Bool.and_eq_true, decide_eq_true_eq] at hdigit
      have hhigh : c.toNat ≤ 57 := hdigit.2
      have hletters : ∀ d ∈ "infityna".toList, 97 ≤ d.toNat :=
        List.all_iff_forall_prop.mp (by decide)
      have hlow := hletters _ hletter
      rw [toNat_toLower] at hlow
      split at hlow <;> omega
    · have hmarks : ∀ d ∈ ['+', '-', '.', 'e', 'E'], d.toLower ∉ "infityna".toList :=
        List.all_iff_forall_prop.mp (by decide)
      exact hmarks c hmark hletter
  · exact h.ne_mark hcs

theorem IsHex.not_isNumeral {sign cs : List Char} {k : Int} (h : IsHex sign cs k)
    (hsign : sign ≠ []) : ¬ IsNumeral cs := by
  obtain ⟨mark, negative, digits, n, hmark, hsigned, -, rfl, -⟩ := h
  rintro (hdecimal | ⟨k', mark', negative', digits', n', _, hsigned', hspells, hcs, _⟩)
  · exact hdecimal.ne_mark hmark rfl
  · -- digits do not begin with a sign
    injection hcs with _ hcs
    injection hcs with _ hcs
    have hunsigned := hspells.unsigned (by decide) (by decide)
    rw [List.nil_append] at hcs
    rw [← hcs] at hunsigned
    cases hsigned with
    | none => exact hsign rfl
    | plus => exact (hunsigned '+' rfl).1 rfl
    | minus => exact (hunsigned '-' rfl).2 rfl

end Numeral

namespace Value

open Numeral

/-- **Texts that are numbers.**  With blanks around, they are the numerals, hexadecimal ones only
if they are in range; the words for infinity and for what is no number; and hexadecimal integers
in range with a sign after the mark.  The last two are no numerals.  All other texts give nil. -/
theorem toNumber_text_accepts (s : String) :
    ((toNumber (.str s)).isNumber = true ↔ ∃ before core after,
      Text.AllBlank before ∧ Text.AllBlank after ∧ s.toList = before ++ core ++ after ∧
        (IsDecimal core ∨ (∃ k, IsHex [] core k ∧ Fits k) ∨ IsWord core ∨
          ∃ sign k, sign ≠ [] ∧ IsHex sign core k ∧ Fits k)) ∧
    ((toNumber (.str s)).isNumber = false → toNumber (.str s) = .nil) ∧
    (∀ core, (IsWord core ∨ ∃ sign k, sign ≠ [] ∧ IsHex sign core k) → ¬ IsNumeral core) := by
  refine ⟨?_, fun h => ?_, ?_⟩
  · show (parseNumber s).isNumber = true ↔ _
    rw [isNumber_parseNumber_iff]
    constructor
    · intro h
      obtain ⟨before, after, hbefore, hafter, hs⟩ := Text.exists_trim s.toList
      refine ⟨before, _, after, hbefore, hafter, hs, ?_⟩
      rcases h with h | h | ⟨sign, k, h, hfits⟩
      · exact .inl h
      · exact .inr (.inr (.inl h))
      · rcases eq_or_ne sign [] with rfl | hne
        · exact .inr (.inl ⟨k, h, hfits⟩)
        · exact .inr (.inr (.inr ⟨sign, k, hne, h, hfits⟩))
    · rintro ⟨before, core, after, hbefore, hafter, hs, hcore⟩
      have hforms : IsDecimal core ∨ IsWord core ∨ ∃ sign k, IsHex sign core k ∧ Fits k := by
        rcases hcore with h | ⟨k, h, hfits⟩ | h | ⟨sign, k, -, h, hfits⟩
        · exact .inl h
        · exact .inr (.inr ⟨[], k, h, hfits⟩)
        · exact .inr (.inl h)
        · exact .inr (.inr ⟨sign, k, h, hfits⟩)
      rwa [trim_eq hbefore hafter hs hforms]
  · exact parseNumber_eq_nil h
  · rintro core (h | ⟨sign, k, hne, h⟩)
    · exact h.not_isNumeral
    · exact h.not_isNumeral hne

/-- Blanks and a word, which is no numeral. -/
theorem toNumber_text_accepts_word :
    (toNumber (.str " -Infinity\t")).isNumber = true ∧ ¬ IsNumeral "-Infinity".toList := by
  have hword : IsWord "-Infinity".toList :=
    ⟨['-'], true, "Infinity".toList, .minus, by decide, by decide⟩
  refine ⟨(toNumber_text_accepts _).1.mpr ⟨[' '], _, ['\t'], by decide, by decide,
    by decide, .inr (.inr (.inl hword))⟩, (toNumber_text_accepts "").2.2 _ (.inl hword)⟩

/-! ## Texts of integers -/

/-- The text of an integer is the integer in decimal. -/
theorem spellsInt_toText (n : Int64) : SpellsInt 10 (toText (.int n)).toList n.toInt := by
  show SpellsInt 10 (toString n.toInt).toList n.toInt
  generalize n.toInt = k
  cases k with
  | ofNat m =>
    exact ⟨[], false, Nat.toDigits 10 m, m, .none, spells_toDigits (by decide) (by decide) m,
      String.toList_ofList, rfl⟩
  | negSucc m =>
    refine ⟨['-'], true, Nat.toDigits 10 (m + 1), m + 1, .minus,
      spells_toDigits (by decide) (by decide) (m + 1), ?_, ?_⟩
    · show ("-" ++ String.ofList (Nat.toDigits 10 (m + 1))).toList = _
      simp only [String.toList_append, String.toList_ofList]
      rfl
    · rfl

/-- **Texts of integers.**  With blanks around, the text of an integer is read as that integer.
So are its hexadecimal digits after a mark, in either case and with zeros in front.  A decimal
integer out of range is read as a float. -/
theorem toNumber_integer_text (before after : String) (hbefore : Text.AllBlank before.toList)
    (hafter : Text.AllBlank after.toList) :
    (∀ n : Int64, toNumber (.str (before ++ toText (.int n) ++ after)) = .int n) ∧
    (∀ (n : Int64) (magnitude : Nat) (mark : Char) (digits : List Char), n.toInt = magnitude →
      mark = 'x' ∨ mark = 'X' → Spells 16 digits magnitude →
      toNumber (.str (before ++ String.ofList ('0' :: mark :: digits) ++ after)) = .int n) ∧
    (∀ (k : Int) (text : List Char), SpellsInt 10 text k → ¬ Fits k →
      ∃ x, toNumber (.str (before ++ String.ofList text ++ after)) = .float x) := by
  have hlist (s : String) : (before ++ s ++ after).toList =
      before.toList ++ s.toList ++ after.toList := by
    rw [String.toList_append, String.toList_append]
  refine ⟨fun n => ?_, fun n magnitude mark digits hn hmark hspells => ?_,
    fun k text htext hfits => ?_⟩
  · have hspells := spellsInt_toText n
    exact parseNumber_of_readInt (trim_eq hbefore hafter (hlist _) (.inl hspells.isDecimal))
      ((readInt?_eq_some_iff (by decide) (by decide)).mpr hspells)
  · have hhex : IsHex [] ('0' :: mark :: digits) n.toInt :=
      ⟨mark, false, digits, magnitude, hmark, .none, hspells, rfl, hn⟩
    have hread : readInt? 16 digits = some n :=
      (readInt?_eq_some_iff (by decide) (by decide)).mpr
        ⟨[], false, digits, magnitude, .none, hspells, rfl, hn⟩
    have htrim := trim_eq hbefore hafter (hlist (String.ofList ('0' :: mark :: digits)))
      (by rw [String.toList_ofList]; exact .inr (.inr ⟨[], n.toInt, hhex, fits_toInt n⟩))
    rw [String.toList_ofList] at htrim
    show parseNumber _ = _
    rw [parseNumber_of_mark hmark htrim, hread]
    rfl
  · have hdecimal := htext.isDecimal
    have htrim := trim_eq hbefore hafter (hlist (String.ofList text))
      (by rw [String.toList_ofList]; exact .inl hdecimal)
    rw [String.toList_ofList] at htrim
    have hread : readInt? 10 text = none := by
      by_contra hsome
      obtain ⟨n, hn⟩ := Option.ne_none_iff_exists'.mp hsome
      have hspells := (readInt?_eq_some_iff (by decide) (by decide)).mp hn
      rw [htext.unique (by decide) (by decide) hspells] at hfits
      exact hfits (fits_toInt n)
    obtain ⟨x, hx⟩ := (readFloat?_iff text).mpr (.inr hdecimal)
    refine ⟨x, ?_⟩
    show parseNumber _ = _
    rw [parseNumber_of_readFloat htrim hdecimal.hexDigits?_eq_none hread, hx]
    rfl

/-- The least integer between blanks, a number in hexadecimal with zeros in front, and the
integer after the greatest. -/
theorem toNumber_integer_text_limits :
    toNumber (.str (" " ++ toText (.int (-9223372036854775808)) ++ "\n")) =
        .int (-9223372036854775808) ∧
      toNumber (.str (" " ++ "0X00fF" ++ "\n")) = .int 255 ∧
      ∃ x, toNumber (.str (" " ++ "9223372036854775808" ++ "\n")) = .float x := by
  obtain ⟨htext, hhex, hbeyond⟩ := toNumber_integer_text " " "\n" (by decide) (by decide)
  refine ⟨htext _, hhex 255 255 'X' "00fF".toList (by decide) (.inr rfl) ⟨2, by decide⟩,
    hbeyond 9223372036854775808 "9223372036854775808".toList ?_ (by unfold Fits; decide)⟩
  exact ⟨[], false, _, 9223372036854775808, .none, ⟨0, by decide⟩, rfl, rfl⟩

end Value
end AdaptiveScript
