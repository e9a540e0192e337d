import AdaptiveScript.Proofs.Run.Refinement

/-!
# Shared objects

Reads and writes of cells, tables and functions give the same on heaps that have the same
objects, and keep them the same.  For a table this is where layouts disappear: access
through the slot of a constant key is access by key, because a table with the shape of a
field has the layout that the slot was taken from (`loadField_eq`, `storeField_eq`).
-/

namespace AdaptiveScript

/-! ## Tables -/

namespace Table.Same

theorem set {t u : Table} (h : t.Same u) (ht : t.Regular) (key : Key) (v : Value) :
    (t.set key v).Same (u.set key v) := by
  refine ⟨fun other => ?_, h.regular.set key v⟩
  by_cases heq : other = key
  · subst heq
    rw [get_set_self ht, get_set_self h.regular]
  · rw [get_set_of_ne heq, get_set_of_ne heq, h.get]

/-- An empty table is the same map, whatever its layout. -/
theorem ofLayout (l : Layout) : (Table.ofLayout l).Same .empty :=
  ⟨fun key => (get_ofLayout _ key).trans (get_ofLayout l key).symm, regular_ofLayout _⟩

theorem border {t u : Table} (h : t.Same u) (ht : t.Regular) : u.border = t.border :=
  border_congr h.regular ht h.get

end Table.Same

/-- Two layouts that were compiled from one shape are the same. -/
theorem Layout.Compiled.unique {shapes : Shapes} {l l' : Layout} (h : l.Compiled shapes)
    (h' : l'.Compiled shapes) (hshape : l.shape = l'.shape) : l = l' := by
  rw [← h.layout_eq, ← h'.layout_eq, hshape]

/-- A table with the shape of a field has the layout of the field. -/
theorem Table.Laid.layout_eq {shapes : Shapes} {t : Table} (h : t.Laid shapes) {l : Layout}
    (hl : l.Compiled shapes) (hshape : t.layout.shape = l.shape) : t.layout = l := by
  refine (h.compiled ?_).unique hl hshape
  rw [hshape]
  exact Nat.ne_of_gt hl.has.1

/-- Reading a constant key through its slot is reading by key. -/
theorem loadField_eq {shapes : Shapes} {heap : Heap} (hlaid : heap.Laid shapes) {f : Field}
    {l : Layout} (hl : l.Compiled shapes) (hf : f.In l) (target : Value) :
    loadField heap f target = indexValue heap target (.str f.key) := by
  cases target with
  | table ref =>
    show (if (heap.table ref).layout.shape = f.shape then _ else _) = Except.ok _
    split
    · next hshape =>
      have hlayout := (hlaid ref).layout_eq hl (hshape.trans hf.1.symm)
      rw [Table.loadSlot_eq_get (by rw [hlayout]; exact hf.2)]
      rfl
    · rfl
  | _ => rfl

/-- Writing a constant key through its slot is writing by key. -/
theorem storeField_eq {shapes : Shapes} {heap : Heap} (hlaid : heap.Laid shapes) {f : Field}
    {l : Layout} (hl : l.Compiled shapes) (hf : f.In l) (target v : Value) :
    storeField heap f target v = storeIndex heap target (.str f.key) v := by
  cases target with
  | table ref =>
    show (if (heap.table ref).layout.shape = f.shape then _ else _) = Except.ok _
    split
    · next hshape =>
      have hlayout := (hlaid ref).layout_eq hl (hshape.trans hf.1.symm)
      rw [Table.storeSlot_eq_set (hlaid ref).regular (by rw [hlayout]; exact hf.2)]
      rfl
    · rfl
  | _ => rfl

/-- A store changes one table. -/
theorem exists_of_storeIndex {heap heap' : Heap} {target key v : Value}
    (h : storeIndex heap target key v = .ok heap') : ∃ ref t, heap' = heap.setTable ref t := by
  cases target with
  | table ref =>
    unfold storeIndex at h
    dsimp only at h
    split at h
    · cases h
      exact ⟨ref, _, rfl⟩
    · cases h
  | _ => cases h

theorem exists_of_storeField {heap heap' : Heap} {f : Field} {target v : Value}
    (h : storeField heap f target v = .ok heap') : ∃ ref t, heap' = heap.setTable ref t := by
  cases target with
  | table ref =>
    unfold storeField at h
    dsimp only at h
    split at h
    · cases hslot : (heap.table ref).storeSlot f.slot v with
      | error e =>
        rw [hslot] at h
        cases h
      | ok t =>
        rw [hslot] at h
        cases h
        exact ⟨ref, t, rfl⟩
    · cases h
      exact ⟨ref, _, rfl⟩
  | _ => cases h

/-! ## Heaps -/

theorem Heap.closureOf?_eq_some {heap : Heap} {ref : FunctionRef} {c : Closure} :
    heap.closureOf? ref = some c ↔ heap.function? ref = some (.closure c) := by
  unfold closureOf?
  cases heap.function? ref with
  | none => simp
  | some f => cases f <;> simp

/-- A closure that is there after a function was made is an old one or the new one. -/
theorem Heap.closureOf?_addFunction {heap : Heap} (name : String) {f : FunctionObject}
    {ref : FunctionRef} {c : Closure} (h : (heap.addFunction name f).2.closureOf? ref = some c) :
    heap.closureOf? ref = some c ∨ f = .closure c := by
  rw [closureOf?_eq_some] at h ⊢
  change (heap.functions.push f)[ref.id]? = _ at h
  rw [Array.getElem?_push] at h
  split at h
  · exact .inr (Option.some.inj h)
  · exact .inl h

theorem Heap.overloads?_eq_some {heap : Heap} {ref : FunctionRef} {overloads : List Overload} :
    heap.overloads? ref = some overloads ↔ heap.function? ref = some (.host overloads) := by
  unfold overloads?
  cases heap.function? ref with
  | none => simp
  | some f => cases f <;> simp

namespace Heap.Alike

variable {heap plain : Heap}

theorem cell (h : heap.Alike plain) (id : CellId) : plain.cell id = heap.cell id := by
  unfold Heap.cell
  rw [h.cells]

theorem function? (h : heap.Alike plain) (ref : FunctionRef) :
    plain.function? ref = heap.function? ref := by
  unfold Heap.function?
  rw [h.functions]

theorem border (h : heap.Alike plain) {shapes : Shapes} (hlaid : heap.Laid shapes) :
    plain.border = heap.border := by
  funext id
  unfold Heap.border
  rw [(h.tables id).border (hlaid id).regular]

theorem indexValue (h : heap.Alike plain) (target key : Value) :
    indexValue plain target key = indexValue heap target key := by
  cases target with
  | table ref =>
    cases hkey : Key.ofValue key with
    | ok k => simp only [AdaptiveScript.indexValue, hkey, (h.tables ref).get]
    | error e => simp only [AdaptiveScript.indexValue, hkey]
  | _ => rfl

theorem setCell (h : heap.Alike plain) (id : CellId) (v : Value) :
    (heap.setCell id v).Alike (plain.setCell id v) where
  cells := by
    show plain.cells.setIfInBounds id v = heap.cells.setIfInBounds id v
    rw [h.cells]
  functions := h.functions
  tables_size := h.tables_size
  tables := h.tables

theorem addCell (h : heap.Alike plain) (v : Value) :
    (plain.addCell v).1 = (heap.addCell v).1 ∧ (heap.addCell v).2.Alike (plain.addCell v).2 := by
  refine ⟨congrArg Array.size h.cells, ?_, h.functions, h.tables_size, h.tables⟩
  show plain.cells.push v = heap.cells.push v
  rw [h.cells]

theorem addFunction (h : heap.Alike plain) (name : String) (f : FunctionObject) :
    (plain.addFunction name f).1 = (heap.addFunction name f).1 ∧
      (heap.addFunction name f).2.Alike (plain.addFunction name f).2 := by
  refine ⟨?_, h.cells, ?_, h.tables_size, h.tables⟩
  · show FunctionRef.mk plain.functions.size name = FunctionRef.mk heap.functions.size name
    rw [h.functions]
  · show plain.functions.push f = heap.functions.push f
    rw [h.functions]

theorem addTable (h : heap.Alike plain) {t u : Table} (ht : t.Same u) :
    (plain.addTable u).1 = (heap.addTable t).1 ∧ (heap.addTable t).2.Alike (plain.addTable u).2 := by
  refine ⟨h.tables_size, h.cells, h.functions, ?_, fun id => ?_⟩
  · simp [Heap.addTable, h.tables_size]
  · by_cases hlt : id < heap.tables.size
    · rw [table_addTable_of_lt hlt, table_addTable_of_lt (by rw [h.tables_size]; exact hlt)]
      exact h.tables id
    · by_cases heq : id = (heap.addTable t).1
      · have hplain : id = (plain.addTable u).1 := heq.trans h.tables_size.symm
        rw [heq, table_addTable, ← heq, hplain, table_addTable]
        exact ht
      · have hne : id ≠ heap.tables.size := heq
        have hsize := h.tables_size
        rw [table_eq_empty, table_eq_empty]
        · exact .ofLayout _
        · simp only [Heap.addTable, Array.size_push]
          omega
        · simp only [Heap.addTable, Array.size_push]
          omega

theorem setTable (h : heap.Alike plain) {t u : Table} (ht : t.Same u) (id : TableId) :
    (heap.setTable id t).Alike (plain.setTable id u) := by
  refine ⟨h.cells, h.functions, ?_, fun other => ?_⟩
  · simp [Heap.setTable, h.tables_size]
  · by_cases hlt : other < heap.tables.size
    · by_cases heq : other = id
      · subst heq
        rw [table_setTable_self hlt, table_setTable_self (by rw [h.tables_size]; exact hlt)]
        exact ht
      · rw [table_setTable_of_ne heq, table_setTable_of_ne heq]
        exact h.tables other
    · rw [table_eq_empty, table_eq_empty]
      · exact .ofLayout _
      · simpa [Heap.setTable, h.tables_size] using hlt
      · simpa [Heap.setTable] using hlt

end Heap.Alike
end AdaptiveScript
