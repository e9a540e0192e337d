import AdaptiveScript.Proofs.Shape.History
import AdaptiveScript.Proofs.Table.Map
import Mathlib.Data.List.Induction
import Mathlib.Data.Set.Finite.Basic

/-!
# What a table holds after a history

A table can be written at a key and at a slot, and read at a key, at a text and at a slot.
This module follows an arbitrary sequence of such operations on a table that starts empty,
and compares it with the plain account of the same sequence: the list of the writes that it
made, of which the last one at a key counts (`TableOperation.lastWritten`).

The comparison needs the keys of the layout to be distinct.  Then a slot and its key are two
names of one place, so that a write to a slot is a keyed write (`perform_snd`), and a
sequence of operations is a sequence of keyed writes.  A layout that lists a key twice has a
slot which no key reaches.

What is true of the parts of a table at every moment is `Table.Tidy`: it is regular, the
list holds no key that has a slot, and no key twice.
-/

namespace AdaptiveScript

/-! ## Slots of distinct keys -/

/-- A key that has no slot is not among the keys. -/
theorem Layout.slotOf?_eq_none_iff {l : Layout} {key : String} :
    l.slotOf? key = none ↔ key ∉ l.keys.toList := by
  unfold Layout.slotOf?
  rw [Option.map_eq_none_iff, List.find?_eq_none]
  constructor
  · intro h hmem
    obtain ⟨slot, hslot, hkey⟩ := List.getElem_of_mem hmem
    have hentry : (key, slot) ∈ l.keys.toList.zipIdx.reverse := by
      rw [List.mem_reverse, List.mem_zipIdx_iff_getElem?, ← hkey]
      exact List.getElem?_eq_getElem hslot
    exact h _ hentry (beq_self_eq_true key)
  · intro h entry hentry hkey
    rw [List.mem_reverse, List.mem_zipIdx_iff_getElem?] at hentry
    have heq : entry.1 = key := by simpa using hkey
    rw [heq] at hentry
    exact h (List.mem_of_getElem? hentry)

/-- Where the keys are distinct, every slot is the slot of its key. -/
theorem Layout.slotOf?_of_getElem? {l : Layout} (hkeys : l.keys.toList.Nodup) {slot : Nat}
    {key : String} (h : l.keys[slot]? = some key) : l.slotOf? key = some slot := by
  cases hslot : l.slotOf? key with
  | none =>
    refine absurd ?_ (Layout.slotOf?_eq_none_iff.1 hslot)
    exact Array.mem_toList_iff.2 (Array.mem_of_getElem? h)
  | some place =>
    have hplace := Layout.key_of_slotOf? hslot
    rw [← Array.getElem?_toList] at h hplace
    have hlt : slot < l.keys.toList.length := (List.getElem?_eq_some_iff.1 h).1
    rw [(List.getElem?_inj hlt hkeys).1 (h.trans hplace.symm)]

open ShapeOperation in
/-- The layout of a shape has distinct keys, whatever has happened to the shapes. -/
theorem Layout.nodup_of_history {ops : List ShapeOperation} (hops : History .empty ops)
    (shape : ShapeId) :
    ((Learn.compileShape shape).run (run .empty ops)).1.keys.toList.Nodup := by
  have hdistinct : (run .empty ops).shapes.Distinct := by
    refine (advances_run (Shapes.forest_of_blank state_empty) hops).distinct fun id => ?_
    rw [state_empty]
    exact List.nodup_nil
  rw [(Learn.run_compileShape _ shape).1]
  exact hdistinct _

namespace Table

/-! ## The parts of a table -/

/-- A table keeps its parts apart: it is regular, and the list holds each key at most once
and no key that has a slot. -/
structure Tidy (t : Table) : Prop where
  regular : t.Regular
  apart : ∀ entry ∈ t.entries, t.slotOfKey? entry.1 = none
  nodup : (t.entries.map Prod.fst).Nodup

theorem tidy_ofLayout (l : Layout) : (ofLayout l).Tidy where
  regular := regular_ofLayout l
  apart := by
    intro entry hentry
    cases hentry
  nodup := List.nodup_nil

/-- The entries after a write: a slot leaves them alone, and elsewhere the old entries of
the key go and one for the new value may come. -/
theorem entries_set (t : Table) (key : Key) (v : Value) :
    (t.set key v).entries = t.entries ∧ t.slotOfKey? key ≠ none ∨
      t.slotOfKey? key = none ∧
        ((t.set key v).entries = Association.without key t.entries ∨
          (t.set key v).entries = (key, v) :: Association.without key t.entries) := by
  unfold Table.set
  cases hslot : t.slotOfKey? key with
  | some slot => exact .inl ⟨rfl, Option.some_ne_none slot⟩
  | none =>
    refine .inr ⟨rfl, ?_⟩
    dsimp only
    split
    · left
      unfold entries
      cases t.spill <;> rfl
    · exact .inr rfl

theorem Tidy.set {t : Table} (h : t.Tidy) (key : Key) (v : Value) : (t.set key v).Tidy := by
  have hsub : (Association.without key t.entries).Sublist t.entries := List.filter_sublist
  have hnodup : ((Association.without key t.entries).map Prod.fst).Nodup :=
    h.nodup.sublist (hsub.map Prod.fst)
  refine ⟨h.regular.set key v, ?_, ?_⟩
  · intro entry hentry
    rw [slotOfKey?_set]
    rcases entries_set t key v with ⟨heq, -⟩ | ⟨hslot, heq | heq⟩
    · exact h.apart entry (heq ▸ hentry)
    · exact h.apart entry (hsub.subset (heq ▸ hentry))
    · rw [heq] at hentry
      rcases List.mem_cons.1 hentry with rfl | hentry
      · exact hslot
      · exact h.apart entry (hsub.subset hentry)
  · rcases entries_set t key v with ⟨heq, -⟩ | ⟨-, heq | heq⟩
    · rw [heq]
      exact h.nodup
    · rw [heq]
      exact hnodup
    · rw [heq, List.map_cons]
      refine List.nodup_cons.2 ⟨fun hmem => ?_, hnodup⟩
      obtain ⟨entry, hentry, hkey⟩ := List.mem_map.1 hmem
      have hne := (List.mem_filter.1 hentry).2
      rw [hkey, bne_self_eq_false] at hne
      cases hne

/-- An entry of the list is read under its key. -/
theorem Tidy.get_of_mem {t : Table} (h : t.Tidy) {entry : Key × Value}
    (hentry : entry ∈ t.entries) : t.get entry.1 ≠ .nil := by
  unfold get
  rw [h.apart entry hentry]
  cases hlookup : t.entries.lookup entry.1 with
  | none =>
    have hnone := List.lookup_eq_none_iff.1 hlookup entry hentry
    simp at hnone
  | some v => exact h.regular.ne_nil _ (mem_of_lookup hlookup)

/-- A key that does not read nil has a slot or an entry. -/
theorem mem_of_get_ne_nil {t : Table} {key : Key} (h : t.get key ≠ .nil) :
    key ∈ t.layout.keys.toList.map Key.str ++ t.entries.map Prod.fst := by
  rw [List.mem_append]
  cases hslot : t.slotOfKey? key with
  | some slot =>
    cases key with
    | str s =>
      have hkey := Layout.key_of_slotOf? hslot
      exact .inl (List.mem_map_of_mem (Array.mem_toList_iff.2 (Array.mem_of_getElem? hkey)))
    | _ => cases hslot
  | none =>
    unfold get at h
    rw [hslot] at h
    cases hlookup : t.entries.lookup key with
    | none =>
      rw [hlookup] at h
      exact absurd rfl h
    | some v => exact .inr (List.mem_map.2 ⟨(key, v), mem_of_lookup hlookup, rfl⟩)

/-- Where the keys are distinct, a slot in range reads as its key, and beyond the last slot
there is nil. -/
theorem loadSlot_eq {t : Table} (h : t.Tidy) (hkeys : t.layout.keys.toList.Nodup) (slot : Nat) :
    t.loadSlot slot = (t.layout.keys[slot]?).elim .nil fun key => t.get (.str key) := by
  cases hkey : t.layout.keys[slot]? with
  | some key => exact loadSlot_eq_get (Layout.slotOf?_of_getElem? hkeys hkey)
  | none =>
    have hle : t.slots.size ≤ slot := by
      rw [h.regular.size_eq]
      exact Array.getElem?_eq_none_iff.1 hkey
    simp [loadSlot, Array.getD_eq_getD_getElem?, hle]

/-- A table is empty exactly if every key reads nil. -/
theorem isEmpty_iff {t : Table} (h : t.Tidy) (hkeys : t.layout.keys.toList.Nodup) :
    t.isEmpty = true ↔ ∀ key, t.get key = .nil := by
  unfold isEmpty
  rw [Bool.and_eq_true, Array.all_eq_true, List.isEmpty_iff]
  constructor
  · rintro ⟨hslots, hentries⟩ key
    unfold get
    cases hslot : t.slotOfKey? key with
    | none => simp [hentries]
    | some slot =>
      have hlt := slotOfKey?_lt h.regular hslot
      have hnil := hslots slot hlt
      simp only [loadSlot, Array.getD_eq_getD_getElem?, Array.getElem?_eq_getElem hlt]
      cases hv : t.slots[slot] with
      | nil => rfl
      | _ =>
        rw [hv] at hnil
        cases hnil
  · intro hnil
    refine ⟨fun slot hslot => ?_, ?_⟩
    · have hload := loadSlot_eq h hkeys slot
      have hlt : slot < t.layout.keys.size := h.regular.size_eq ▸ hslot
      rw [Array.getElem?_eq_getElem hlt, Option.elim_some, hnil] at hload
      simp only [loadSlot, Array.getD_eq_getD_getElem?, Array.getElem?_eq_getElem hslot,
        Option.getD_some] at hload
      rw [hload]
      rfl
    · cases hentries : t.entries with
      | nil => rfl
      | cons entry rest =>
        have hmem : entry ∈ t.entries := hentries ▸ List.mem_cons_self ..
        exact absurd (hnil entry.1) (h.get_of_mem hmem)

end Table

/-! ## Operations -/

/-- What can be done to a table. -/
inductive TableOperation where
  | set (key : Key) (v : Value)
  | storeSlot (slot : Nat) (v : Value)
  | get (key : Key)
  | getStr (key : String)
  | loadSlot (slot : Nat)

namespace TableOperation

/-- Do an operation: what it answers, a write having nothing to say, and the table after
it.  A refused write leaves the table. -/
def perform (t : Table) : TableOperation → Except RuntimeError (Option Value) × Table
  | .set key v => (.ok none, t.set key v)
  | .storeSlot slot v =>
    match t.storeSlot slot v with
    | .ok u => (.ok none, u)
    | .error e => (.error e, t)
  | .get key => (.ok (some (t.get key)), t)
  | .getStr key => (.ok (some (t.getStr key)), t)
  | .loadSlot slot => (.ok (some (t.loadSlot slot)), t)

/-- The table after some operations on an empty one. -/
def after (l : Layout) (ops : List TableOperation) : Table :=
  ops.foldl (fun t op => (op.perform t).2) (.ofLayout l)

/-- What an operation writes, and at which key.  A slot stands for its key; a slot that
does not exist is not written. -/
def written (l : Layout) : TableOperation → Option (Key × Value)
  | .set key v => some (key, v)
  | .storeSlot slot v => (l.keys[slot]?).map fun key => (.str key, v)
  | _ => none

/-- The last value that some operations wrote to a key, nil if there was none. -/
def lastWritten (l : Layout) (ops : List TableOperation) (key : Key) : Value :=
  ((ops.filterMap (written l)).reverse.lookup key).getD .nil

/-- What an operation should answer where the keys have the given values. -/
def expected (l : Layout) (map : Key → Value) : TableOperation → Except RuntimeError (Option Value)
  | .set _ _ => .ok none
  | .storeSlot slot _ =>
    if slot < l.keys.size then .ok none else .error (.slotRange slot l.keys.size)
  | .get key => .ok (some (map key))
  | .getStr key => .ok (some (map (.str key)))
  | .loadSlot slot => .ok (some ((l.keys[slot]?).elim .nil fun key => map (.str key)))

theorem lastWritten_concat (l : Layout) (ops : List TableOperation) (op : TableOperation)
    (key : Key) :
    lastWritten l (ops ++ [op]) key =
      (op.written l).elim (lastWritten l ops key) fun write =>
        if key = write.1 then write.2 else lastWritten l ops key := by
  unfold lastWritten
  rw [List.filterMap_append, List.reverse_append]
  cases hwritten : op.written l with
  | none => simp [hwritten]
  | some write =>
    obtain ⟨place, v⟩ := write
    have hlast : ([op].filterMap (written l)).reverse = [(place, v)] := by simp [hwritten]
    rw [hlast, List.singleton_append, List.lookup_cons, Option.elim_some]
    by_cases hkey : key = place
    · rw [if_pos hkey, hkey, beq_self_eq_true]
      rfl
    · rw [if_neg hkey, beq_false_of_ne hkey]

variable {l : Layout} {t : Table}

/-- **The step.** An operation sets the key that it writes, and else it changes nothing. -/
theorem perform_snd (hkeys : l.keys.toList.Nodup) (ht : t.Regular) (hl : t.layout = l)
    (op : TableOperation) :
    (op.perform t).2 = (op.written l).elim t fun write => t.set write.1 write.2 := by
  cases op with
  | storeSlot slot v =>
    simp only [perform, written]
    cases hkey : l.keys[slot]? with
    | some key =>
      have hslot : t.layout.slotOf? key = some slot := by
        rw [hl]
        exact Layout.slotOf?_of_getElem? hkeys hkey
      rw [Table.storeSlot_eq_set ht hslot]
      rfl
    | none =>
      have hle : ¬ slot < t.slots.size := by
        rw [ht.size_eq, hl, Nat.not_lt]
        exact Array.getElem?_eq_none_iff.1 hkey
      rw [Table.storeSlot, if_neg hle]
      rfl
  | _ => rfl

/-- The answer of an operation is that of the map the table stands for. -/
theorem perform_fst (hkeys : l.keys.toList.Nodup) (ht : t.Tidy) (hl : t.layout = l)
    (op : TableOperation) : (op.perform t).1 = op.expected l t.get := by
  cases op with
  | storeSlot slot v =>
    simp only [perform, expected, Table.storeSlot, ht.regular.size_eq, hl]
    by_cases hslot : slot < l.keys.size
    · rw [if_pos hslot, if_pos hslot]
    · rw [if_neg hslot, if_neg hslot]
  | loadSlot slot =>
    subst hl
    simp only [perform, expected, Table.loadSlot_eq ht hkeys]
  | _ => rfl

/-- A table on its way: it has the layout it was made with, its parts are kept apart, and
it reads as what was written last. -/
structure Follows (l : Layout) (ops : List TableOperation) (t : Table) : Prop where
  layout_eq : t.layout = l
  tidy : t.Tidy
  get_eq : ∀ key, t.get key = lastWritten l ops key

/-- An operation keeps a table on its way. -/
theorem Follows.step {ops : List TableOperation} (h : Follows l ops t)
    (hkeys : l.keys.toList.Nodup) (op : TableOperation) :
    Follows l (ops ++ [op]) (op.perform t).2 := by
  rw [perform_snd hkeys h.tidy.regular h.layout_eq]
  cases hwritten : op.written l with
  | none =>
    refine ⟨h.layout_eq, h.tidy, fun key => ?_⟩
    rw [lastWritten_concat, hwritten]
    exact h.get_eq key
  | some write =>
    refine ⟨(Table.layout_set ..).trans h.layout_eq, h.tidy.set _ _, fun key => ?_⟩
    rw [lastWritten_concat, hwritten, Option.elim_some, Option.elim_some]
    by_cases hkey : key = write.1
    · rw [if_pos hkey, hkey, Table.get_set_self h.tidy.regular]
    · rw [if_neg hkey, Table.get_set_of_ne hkey, h.get_eq]

/-- **The run.** Every sequence of operations leads an empty table along. -/
theorem follows_after (hkeys : l.keys.toList.Nodup) (ops : List TableOperation) :
    Follows l ops (after l ops) := by
  induction ops using List.reverseRecOn with
  | nil => exact ⟨rfl, Table.tidy_ofLayout l, Table.get_ofLayout l⟩
  | append_singleton ops op ih =>
    unfold after
    rw [List.foldl_concat]
    exact ih.step hkeys op

end TableOperation

open TableOperation in
/-- **A table is a finite map.**  After any operations on an empty table of a layout with
distinct keys, every further operation answers as the map from each key to the value last
written to it, be it through the key or through its slot; only finitely many keys are there,
and a refused write changes nothing.  The table still has one value per slot of its layout,
and the entries beside the slots hold no nil, no key of the layout and no key twice.  It is
empty exactly if every key reads nil, and its length is the one number `n` for which the
keys `1, …, n` are there and the next is not. -/
theorem table_of_history {l : Layout} (hkeys : l.keys.toList.Nodup) (ops : List TableOperation) :
    let t := after l ops
    let map := lastWritten l ops
    (∀ key, t.get key = map key) ∧
    (∀ op : TableOperation, (op.perform t).1 = op.expected l map) ∧
    {key | map key ≠ .nil}.Finite ∧
    (∀ slot v, l.keys.size ≤ slot →
      perform t (.storeSlot slot v) = (.error (.slotRange slot l.keys.size), t)) ∧
    t.layout = l ∧ t.slots.size = l.keys.size ∧
    (∀ entry ∈ t.entries, entry.2 ≠ .nil ∧ ∀ key ∈ l.keys, entry.1 ≠ .str key) ∧
    (t.entries.map Prod.fst).Nodup ∧
    (t.isEmpty = true ↔ ∀ key, map key = .nil) ∧
    ∀ n, t.border = n ↔ Table.IsBorder map n := by
  intro t map
  obtain ⟨hl, htidy, hget⟩ : Follows l ops t := follows_after hkeys ops
  have hmap : t.get = map := funext hget
  have hanswer (op : TableOperation) : (op.perform t).1 = op.expected l map := by
    rw [← hmap]
    exact perform_fst hkeys htidy hl op
  have hborder : Table.IsBorder map t.border := hmap ▸ Table.isBorder_border htidy.regular
  refine ⟨hget, hanswer, ?_, fun slot v hslot => ?_, hl, hl ▸ htidy.regular.size_eq,
    fun entry hentry => ⟨htidy.regular.ne_nil entry hentry, fun key hkey heq => ?_⟩,
    htidy.nodup, ?_, fun n => ⟨fun h => h ▸ hborder, fun h => hborder.unique h⟩⟩
  · rw [← hmap]
    exact (List.finite_toSet _).subset fun key hkey => Table.mem_of_get_ne_nil hkey
  · have hnone : written l (.storeSlot slot v) = none := by
      simp [written, hslot]
    have hafter := perform_snd hkeys htidy.regular hl (.storeSlot slot v)
    rw [hnone] at hafter
    refine Prod.ext ?_ hafter
    rw [hanswer, expected, if_neg (Nat.not_lt.2 hslot)]
  · have hapart := htidy.apart entry hentry
    rw [heq, Table.slotOfKey?, hl] at hapart
    exact Layout.slotOf?_eq_none_iff.1 hapart (Array.mem_toList_iff.2 hkey)
  · rw [Table.isEmpty_iff htidy (hl ▸ hkeys), hmap]

/-- Keyed writes and slot writes to a table of a compiled shape, one of them refused. -/
theorem table_of_history_compiled :
    let k := ShapeOperation.run .empty
      [.make, .amend 1 "x" .integer, .amend 1 "y" .string, .compile 1]
    let l := ((Learn.compileShape 1).run k).1
    let ops := [.set (.str "x") (.int 5), .storeSlot 0 (.int 7), .set (.int 1) (.str "a"),
      .storeSlot 1 .nil, .storeSlot 2 (.bool true), .set (.str "z") (.bool false)]
    let t := TableOperation.after l ops
    l.keys.toList.Nodup ∧ t.get (.str "x") = .int 7 ∧ t.border = 1 := by
  intro k l ops t
  have hkeys : l.keys.toList.Nodup := Layout.nodup_of_history (by decide) 1
  obtain ⟨hget, -, -, -, -, -, -, -, -, hborder⟩ := table_of_history hkeys ops
  refine ⟨hkeys, (hget _).trans rfl, (hborder 1).2 ⟨by decide, fun i hpos hle => ?_, .inr rfl⟩⟩
  have hi : i = 1 := by omega
  subst hi
  intro hnil
  cases hnil

end AdaptiveScript
