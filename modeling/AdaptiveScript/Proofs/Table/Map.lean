import AdaptiveScript.Table

/-!
# Tables as maps

A table keeps some text keys in slots and all other keys in a list.  Seen from outside it is
one map from keys to values (`Table.get`), and this module proves what is needed to forget
the difference: keyed reads after keyed writes obey the laws of a map (`get_set`), access
through the slot of a key is keyed access (`loadSlot_eq_get`, `storeSlot_eq_set`), and the
length of a table is a property of the map alone (`border_congr`).

The laws hold of regular tables: there is one value per slot, and no entry of the list is
nil.  All tables are regular, since every table starts empty and every write keeps it so.

## The length

Counting stops after as many steps as the list has entries.  That this never cuts the count
short is a pigeonhole argument: the keys `1, …, n` are different, and each of them has an
entry of its own.
-/

namespace AdaptiveScript

/-- The slot of a key holds that key. -/
theorem Layout.key_of_slotOf? {l : Layout} {key : String} {slot : Nat}
    (h : l.slotOf? key = some slot) : l.keys[slot]? = some key := by
  obtain ⟨entry, hfind, rfl⟩ := Option.map_eq_some_iff.1 h
  have hmem : entry ∈ l.keys.toList.zipIdx := List.mem_reverse.1 (List.mem_of_find?_eq_some hfind)
  have hkey : entry.1 = key := by simpa using List.find?_some hfind
  rw [List.mem_zipIdx_iff_getElem?, hkey] at hmem
  simpa using hmem

theorem Layout.slotOf?_lt {l : Layout} {key : String} {slot : Nat}
    (h : l.slotOf? key = some slot) : slot < l.keys.size :=
  (Array.getElem?_eq_some_iff.1 (Layout.key_of_slotOf? h)).1

/-- Different keys have different slots. -/
theorem Layout.eq_of_slotOf? {l : Layout} {key other : String} {slot : Nat}
    (h : l.slotOf? key = some slot) (h' : l.slotOf? other = some slot) : key = other :=
  Option.some.inj ((Layout.key_of_slotOf? h).symm.trans (Layout.key_of_slotOf? h'))

namespace Table

/-- There is one value per slot, and entries outside the slots are not nil. -/
structure Regular (t : Table) : Prop where
  size_eq : t.slots.size = t.layout.keys.size
  ne_nil : ∀ entry ∈ t.entries, entry.2 ≠ .nil

theorem regular_ofLayout (l : Layout) : (ofLayout l).Regular where
  size_eq := by simp [ofLayout]
  ne_nil := fun entry h => by cases h

theorem Regular.set {t : Table} (h : t.Regular) (key : Key) (v : Value) :
    (t.set key v).Regular where
  size_eq := by rw [size_slots_set, layout_set, h.size_eq]
  ne_nil := fun entry hentry => by
    unfold Table.set at hentry
    split at hentry
    · exact h.ne_nil entry hentry
    · have hkept : ∀ e ∈ Association.without key t.entries, e.2 ≠ .nil :=
        fun e he => h.ne_nil e (List.mem_filter.1 he).1
      cases hv : v.isNil with
      | true =>
        rw [hv, if_pos rfl] at hentry
        refine hkept entry ?_
        unfold entries at hentry ⊢
        cases hspill : t.spill with
        | none =>
          rw [hspill] at hentry
          cases hentry
        | some rest =>
          rw [hspill] at hentry
          exact hentry
      | false =>
        rw [hv, if_neg Bool.false_ne_true] at hentry
        rcases List.mem_cons.1 hentry with rfl | hentry
        · intro (hnil : v = .nil)
          rw [hnil] at hv
          cases hv
        · exact hkept entry hentry

theorem slotOfKey?_lt {t : Table} (h : t.Regular) {key : Key} {slot : Nat}
    (hslot : t.slotOfKey? key = some slot) : slot < t.slots.size := by
  cases key with
  | str s =>
    rw [h.size_eq]
    exact Layout.slotOf?_lt hslot
  | _ => cases hslot

theorem eq_of_slotOfKey? {t : Table} {key other : Key} {slot : Nat}
    (h : t.slotOfKey? key = some slot) (h' : t.slotOfKey? other = some slot) : key = other := by
  cases key with
  | str s =>
    cases other with
    | str s' => exact congrArg Key.str (Layout.eq_of_slotOf? h h')
    | _ => cases h'
  | _ => cases h

/-! ## Reading and writing -/

theorem get_ofLayout (l : Layout) (key : Key) : (ofLayout l).get key = .nil := by
  unfold get
  split
  · next slot _ =>
    simp only [loadSlot, ofLayout, Array.getD_eq_getD_getElem?, Array.getElem?_replicate]
    split <;> rfl
  · rfl

/-- A write changes what is read at its own key. -/
theorem get_set_self {t : Table} (h : t.Regular) (key : Key) (v : Value) :
    (t.set key v).get key = v := by
  cases hslot : t.slotOfKey? key with
  | none => exact get_set_spill hslot v
  | some slot => exact get_set_slot hslot (slotOfKey?_lt h hslot) v

/-- A write changes nothing at other keys. -/
theorem get_set_of_ne {t : Table} {key other : Key} (hne : other ≠ key) (v : Value) :
    (t.set key v).get other = t.get other := by
  unfold get
  rw [slotOfKey?_set]
  cases hslot : t.slotOfKey? key with
  | some slot =>
    have hset : t.set key v = { t with slots := t.slots.setIfInBounds slot v } := by
      simp [Table.set, hslot]
    rw [hset]
    cases hother : t.slotOfKey? other with
    | none => rfl
    | some place =>
      have hplace : slot ≠ place := fun heq => by
        subst heq
        exact hne (eq_of_slotOfKey? hother hslot)
      simp [loadSlot, Array.getD_eq_getD_getElem?, hplace]
  | none =>
    have hslots : (t.set key v).slots = t.slots := by
      unfold Table.set
      rw [hslot]
      dsimp only
      split <;> rfl
    have hentries : (t.set key v).entries.lookup other = t.entries.lookup other := by
      unfold Table.set
      rw [hslot]
      dsimp only
      split
      · unfold entries
        cases t.spill with
        | none => rfl
        | some rest => exact Association.lookup_without_of_ne hne rest
      · show List.lookup other ((key, v) :: Association.without key t.entries) = _
        rw [List.lookup_cons, beq_false_of_ne hne]
        exact Association.lookup_without_of_ne hne _
    simp only [loadSlot, hslots, hentries]

/-- Reading the slot of a key reads the key. -/
theorem loadSlot_eq_get {t : Table} {key : String} {slot : Nat}
    (h : t.layout.slotOf? key = some slot) : t.loadSlot slot = t.getStr key := by
  simp [getStr, get, slotOfKey?, h]

/-- Writing the slot of a key writes the key. -/
theorem storeSlot_eq_set {t : Table} (hreg : t.Regular) {key : String} {slot : Nat}
    (h : t.layout.slotOf? key = some slot) (v : Value) :
    t.storeSlot slot v = .ok (t.set (.str key) v) := by
  have hkey : t.slotOfKey? (.str key) = some slot := h
  have hlt : slot < t.slots.size := slotOfKey?_lt hreg hkey
  simp [storeSlot, hlt, Table.set, slotOfKey?, h]

theorem layout_storeSlot {t u : Table} {slot : Nat} {v : Value}
    (h : t.storeSlot slot v = .ok u) : u.layout = t.layout := by
  unfold storeSlot at h
  split at h
  · cases h
    rfl
  · cases h

/-! ## The length -/

/-- The largest length a table can have. -/
def maxBorder : Nat :=
  Int64.maxValue.toInt.toNat

/-- A number is the length of a map: its keys from one on are there, and the next is not,
unless there is no next. -/
structure IsBorder (get : Key → Value) (n : Nat) : Prop where
  le_max : n ≤ maxBorder
  present : ∀ i, 0 < i → i ≤ n → get (.int (Int64.ofNat i)) ≠ .nil
  last : n = maxBorder ∨ get (.int (Int64.ofNat (n + 1))) = .nil

/-- A map has one length. -/
theorem IsBorder.unique {get : Key → Value} {a b : Nat} (ha : IsBorder get a)
    (hb : IsBorder get b) : a = b := by
  have hle {a b : Nat} (ha : IsBorder get a) (hb : IsBorder get b) : b ≤ a := by
    apply Nat.le_of_not_lt
    intro hlt
    rcases ha.last with hmax | hnil
    · have hle := hb.le_max
      omega
    · exact hb.present (a + 1) (Nat.succ_pos a) hlt hnil
  exact Nat.le_antisymm (hle hb ha) (hle ha hb)

/-- Counting goes up while keys are there, and stops where one is missing or the bound is
reached. -/
theorem borderFrom_spec (entries : List (Key × Value)) : ∀ bound n : Nat,
    n ≤ borderFrom entries bound n ∧ borderFrom entries bound n ≤ n + bound ∧
    (∀ i, n < i → i ≤ borderFrom entries bound n →
      (entries.lookup (.int (Int64.ofNat i))).isSome = true) ∧
    (borderFrom entries bound n = n + bound ∨
      (entries.lookup (.int (Int64.ofNat (borderFrom entries bound n + 1)))).isSome = false) := by
  intro bound
  induction bound with
  | zero => exact fun n => ⟨Nat.le_refl n, Nat.le_refl n, fun i hlt hle => by
      rw [borderFrom] at hle
      omega, .inl rfl⟩
  | succ bound ih =>
    intro n
    rw [borderFrom]
    split
    · next hfound =>
      obtain ⟨hge, hle, hall, hlast⟩ := ih (n + 1)
      refine ⟨by omega, by omega, fun i hlt hi => ?_, hlast.imp_left fun heq => by omega⟩
      by_cases hnext : i = n + 1
      · rw [hnext]
        exact hfound
      · exact hall i (by omega) hi
    · next hmissing =>
      exact ⟨Nat.le_refl n, Nat.le_add_right _ _, fun i hlt hle => absurd hlt (by omega),
        .inr (Bool.eq_false_iff.2 hmissing)⟩

/-- Small numbers are different integers. -/
theorem ofNat_inj {i j : Nat} (hi : i ≤ maxBorder) (hj : j ≤ maxBorder)
    (h : Int64.ofNat i = Int64.ofNat j) : i = j := by
  have hmax : maxBorder = 2 ^ 63 - 1 := by decide
  have hval (n : Nat) (hn : n ≤ maxBorder) : (Int64.ofNat n).toInt = n := by
    rw [← Int64.ofInt_eq_ofNat]
    exact Int64.toInt_ofInt_of_le (by omega) (by omega)
  have hcast : (i : Int) = j := by rw [← hval i hi, ← hval j hj, h]
  omega

theorem mem_of_lookup {entries : List (Key × Value)} {key : Key} {v : Value}
    (h : entries.lookup key = some v) : (key, v) ∈ entries := by
  obtain ⟨first, rest, heq, -⟩ := List.lookup_eq_some_iff.1 h
  rw [heq]
  exact List.mem_append_right _ (List.mem_cons_self ..)

/-- The keys of a sequence have entries of their own. -/
theorem le_length_of_present {entries : List (Key × Value)} {n : Nat} (hn : n ≤ maxBorder)
    (h : ∀ i, 0 < i → i ≤ n → (entries.lookup (.int (Int64.ofNat i))).isSome = true) :
    n ≤ entries.length := by
  have hnodup : ((List.range n).map fun i => Key.int (Int64.ofNat (i + 1))).Nodup := by
    refine List.pairwise_map.2 (List.Pairwise.imp_of_mem ?_ List.nodup_range)
    intro i j hi hj hne heq
    rw [List.mem_range] at hi hj
    have hsucc := ofNat_inj (i := i + 1) (j := j + 1) (by omega) (by omega) (Key.int.inj heq)
    omega
  have hsub : ((List.range n).map fun i => Key.int (Int64.ofNat (i + 1))) ⊆
      entries.map Prod.fst := by
    intro key hkey
    obtain ⟨i, hi, rfl⟩ := List.mem_map.1 hkey
    rw [List.mem_range] at hi
    obtain ⟨v, hv⟩ := Option.isSome_iff_exists.1 (h (i + 1) (Nat.succ_pos i) hi)
    exact List.mem_map.2 ⟨(_, v), mem_of_lookup hv, rfl⟩
  simpa using List.Nodup.length_le_of_subset hnodup hsub

/-- An integer key is there exactly if it does not read nil. -/
theorem isSome_lookup_iff {t : Table} (h : t.Regular) (n : Int64) :
    (t.entries.lookup (.int n)).isSome = true ↔ t.get (.int n) ≠ .nil := by
  show _ ↔ (t.entries.lookup (.int n)).getD .nil ≠ .nil
  cases hlookup : t.entries.lookup (.int n) with
  | none => simp
  | some v => simpa using h.ne_nil _ (mem_of_lookup hlookup)

/-- The length of a table is the length of its map. -/
theorem isBorder_border {t : Table} (h : t.Regular) : IsBorder t.get t.border := by
  obtain ⟨-, hle, hall, hlast⟩ :=
    borderFrom_spec t.entries (min t.entries.length maxBorder) 0
  change t.border ≤ _ at hle
  change ∀ i, 0 < i → i ≤ t.border → _ at hall
  change t.border = _ ∨ (t.entries.lookup (.int (Int64.ofNat (t.border + 1)))).isSome = false
    at hlast
  refine ⟨by omega, fun i hi hib => (isSome_lookup_iff h _).1 (hall i hi hib), ?_⟩
  by_cases hmax : t.border = maxBorder
  · exact .inl hmax
  · -- below the largest length counting stops at a missing key
    have hmissing : (t.entries.lookup (.int (Int64.ofNat (t.border + 1)))).isSome = false := by
      rcases hlast with heq | hmissing
      · cases hfound : (t.entries.lookup (.int (Int64.ofNat (t.border + 1)))).isSome with
        | false => rfl
        | true =>
          have hlen : t.border + 1 ≤ t.entries.length :=
            le_length_of_present (by omega) fun i hi hib => by
              by_cases hi' : i = t.border + 1
              · rw [hi', hfound]
              · exact hall i hi (by omega)
          omega
      · exact hmissing
    refine .inr (Classical.byContradiction fun hne => ?_)
    rw [(isSome_lookup_iff h _).2 hne] at hmissing
    cases hmissing

/-- Tables that read alike have the same length. -/
theorem border_congr {t u : Table} (ht : t.Regular) (hu : u.Regular)
    (h : ∀ key, t.get key = u.get key) : t.border = u.border := by
  have hget : t.get = u.get := funext h
  have hborder := isBorder_border ht
  rw [hget] at hborder
  exact hborder.unique (isBorder_border hu)

end Table
end AdaptiveScript
