import AdaptiveScript.Machine
import AdaptiveScript.Proofs.Emission.Relation
import AdaptiveScript.Proofs.Table.Map

/-!
# What time does to a machine

Nothing is ever taken out of a machine: tables keep their layouts, functions stay what they
are, call sites stay made for what they were made for, and knowledge grows
(`Machine.Grows`).  What a type says about a value is therefore decided once and for all: a
value that a type admits is admitted by it ever after (`Ty.admits_mono`).

The exception that makes this interesting is the type of tables of one shape.  Shapes are
merged, so such a type changes its name.  But a table has the layout of a shape only after
that shape was frozen, and the name of a frozen shape is final.  This needs that tables are
laid out by compiled shapes or by none (`Table.Laid`), which is an invariant of machines.
-/

namespace AdaptiveScript

/-! ## Tables and their layouts -/

/-- A table is regular, and its layout was compiled from its shape or has none. -/
structure Table.Laid (shapes : Shapes) (t : Table) : Prop where
  regular : t.Regular
  layout : t.layout = .dynamic ∨ t.layout.Compiled shapes

namespace Table.Laid

variable {shapes : Shapes} {t : Table}

theorem empty (shapes : Shapes) : Table.empty.Laid shapes :=
  ⟨Table.regular_ofLayout _, .inl rfl⟩

theorem ofLayout {l : Layout} (h : l.Compiled shapes) : (Table.ofLayout l).Laid shapes :=
  ⟨Table.regular_ofLayout l, .inr h⟩

theorem set (h : t.Laid shapes) (key : Key) (v : Value) : (t.set key v).Laid shapes :=
  ⟨h.regular.set key v, by rw [Table.layout_set]; exact h.layout⟩

theorem storeSlot (h : t.Laid shapes) {u : Table} {slot : Nat} {v : Value}
    (hu : t.storeSlot slot v = .ok u) : u.Laid shapes := by
  unfold Table.storeSlot at hu
  split at hu
  · cases hu
    exact ⟨⟨by simpa using h.regular.size_eq, h.regular.ne_nil⟩, h.layout⟩
  · cases hu

theorem mono {after : Shapes} (hg : shapes.Grows after) (hb : shapes.Forest) (ha : after.Forest)
    (h : t.Laid shapes) : t.Laid after :=
  ⟨h.regular, h.layout.imp_right fun hl => hl.mono hg hb ha⟩

/-- A table that has a shape has a compiled layout. -/
theorem compiled (h : t.Laid shapes) (hshape : t.layout.shape ≠ dynamicShape) :
    t.layout.Compiled shapes := by
  rcases h.layout with hdynamic | hl
  · rw [hdynamic] at hshape
    exact absurd rfl hshape
  · exact hl

end Table.Laid

namespace Heap

/-- All tables are laid out by compiled shapes or by none. -/
def Laid (shapes : Shapes) (heap : Heap) : Prop :=
  ∀ id : Nat, (heap.table id).Laid shapes

theorem Laid.mono {before after : Shapes} (hg : before.Grows after) (hb : before.Forest)
    (ha : after.Forest) {heap : Heap} (h : heap.Laid before) : heap.Laid after :=
  fun id => (h id).mono hg hb ha

theorem table_eq_empty {heap : Heap} {id : Nat} (h : ¬ id < heap.tables.size) :
    heap.table id = .empty := by
  simp [table, h]

/-- A table that has a shape exists. -/
theorem lt_of_shape {heap : Heap} {id : Nat} (h : (heap.table id).layout.shape ≠ dynamicShape) :
    id < heap.tables.size := by
  apply Classical.byContradiction
  intro hlt
  rw [table_eq_empty hlt] at h
  exact h rfl

/-! ## Growth of the heap -/

/-- Tables keep their layouts and functions stay what they are. -/
structure Grows (before after : Heap) : Prop where
  layout : ∀ {id : Nat}, id < before.tables.size →
    (after.table id).layout = (before.table id).layout
  function : ∀ {ref : FunctionRef} {f : FunctionObject}, before.function? ref = some f →
    after.function? ref = some f
  tables_le : before.tables.size ≤ after.tables.size

namespace Grows

theorem refl (heap : Heap) : heap.Grows heap :=
  ⟨fun _ => rfl, fun h => h, Nat.le_refl _⟩

theorem trans {a b c : Heap} (hab : a.Grows b) (hbc : b.Grows c) : a.Grows c where
  layout hlt := (hbc.layout (Nat.lt_of_lt_of_le hlt hab.tables_le)).trans (hab.layout hlt)
  function h := hbc.function (hab.function h)
  tables_le := Nat.le_trans hab.tables_le hbc.tables_le

theorem closureOf? {before after : Heap} (hg : before.Grows after) {ref : FunctionRef}
    {c : Closure} (h : before.closureOf? ref = some c) : after.closureOf? ref = some c := by
  unfold Heap.closureOf? at h ⊢
  cases hf : before.function? ref with
  | none =>
    rw [hf] at h
    cases h
  | some f =>
    rw [hf] at h
    rw [hg.function hf]
    exact h

theorem addTable (heap : Heap) (t : Table) : heap.Grows (heap.addTable t).2 where
  layout hlt := by rw [table_addTable_of_lt hlt]
  function h := h
  tables_le := by simp [Heap.addTable]

/-- Writing to a table. -/
theorem setTable (heap : Heap) {id : Nat} {t : Table} (h : t.layout = (heap.table id).layout) :
    heap.Grows (heap.setTable id t) where
  layout {other} hlt := by
    by_cases heq : other = id
    · subst heq
      rw [table_setTable_self hlt, h]
    · rw [table_setTable_of_ne heq]
  function h := h
  tables_le := by simp [Heap.setTable]

theorem addFunction (heap : Heap) (name : String) (f : FunctionObject) :
    heap.Grows (heap.addFunction name f).2 where
  layout _ := rfl
  function {ref g} h := by
    have hlt : ref.id < heap.functions.size := (Array.getElem?_eq_some_iff.1 h).1
    show (heap.functions.push f)[ref.id]? = some g
    rw [Array.getElem?_push, if_neg (Nat.ne_of_lt hlt)]
    exact h
  tables_le := Nat.le_refl _

/-- Changes of cells alone. -/
theorem of_cells {before after : Heap} (ht : after.tables = before.tables)
    (hf : after.functions = before.functions) : before.Grows after where
  layout _ := by simp [table, ht]
  function h := by
    unfold function? at h ⊢
    rw [hf]
    exact h
  tables_le := Nat.le_of_eq (by rw [ht])

end Grows

theorem laid_addTable {shapes : Shapes} {heap : Heap} (h : heap.Laid shapes) {t : Table}
    (ht : t.Laid shapes) : (heap.addTable t).2.Laid shapes := by
  intro id
  by_cases hlt : id < heap.tables.size
  · rw [table_addTable_of_lt hlt]
    exact h id
  · by_cases heq : id = (heap.addTable t).1
    · rw [heq, table_addTable]
      exact ht
    · rw [table_eq_empty]
      · exact .empty shapes
      · simp only [addTable, Array.size_push] at heq ⊢
        omega

theorem laid_setTable {shapes : Shapes} {heap : Heap} (h : heap.Laid shapes) {t : Table}
    (ht : t.Laid shapes) (id : Nat) : (heap.setTable id t).Laid shapes := by
  intro other
  by_cases hlt : other < heap.tables.size
  · by_cases heq : other = id
    · subst heq
      rw [table_setTable_self hlt]
      exact ht
    · rw [table_setTable_of_ne heq]
      exact h other
  · rw [table_eq_empty]
    · exact .empty shapes
    · simpa [setTable] using hlt

theorem laid_of_tables {shapes : Shapes} {before after : Heap} (h : before.Laid shapes)
    (ht : after.tables = before.tables) : after.Laid shapes := by
  intro id
  have hid := h id
  unfold table at hid ⊢
  rwa [ht]

end Heap

/-! ## Membership -/

namespace Ty

variable {shapes : Shapes} {heap : Heap} {v : Value}

/-- Membership is what is checked. -/
theorem check_eq_ok_iff {type : Ty} :
    type.check shapes heap v = .ok () ↔ type.admits shapes heap v = true := by
  unfold admits
  cases type.check shapes heap v <;> simp

theorem admits_unknown (shapes : Shapes) (heap : Heap) (v : Value) :
    Ty.unknown.admits shapes heap v = true := rfl

theorem admits_tableOf {shape : ShapeId} : (Ty.tableOf shape).admits shapes heap v = true ↔
    ∃ ref, v = .table ref ∧ (heap.table ref).layout.shape = shapes.resolve shape := by
  cases v with
  | table ref =>
    by_cases h : (heap.table ref).layout.shape = shapes.resolve shape
    · simp [admits, check, Value.expectTable, h, bind, Except.bind, pure, Except.pure]
    · simp [admits, check, Value.expectTable, h, bind, Except.bind, throw, throwThe,
        MonadExceptOf.throw]
  | _ => simp [admits, check, Value.expectTable, bind, Except.bind]

theorem admits_function {proto : PrototypeRef} : (Ty.function proto).admits shapes heap v = true ↔
    ∃ ref c, v = .function ref ∧ heap.closureOf? ref = some c ∧ c.proto.id = proto.id := by
  cases v with
  | function ref =>
    cases hc : heap.closureOf? ref with
    | none =>
      simp [admits, check, Value.expectFunction, hc, bind, Except.bind, throw, throwThe,
        MonadExceptOf.throw]
    | some c =>
      by_cases h : c.proto.id = proto.id
      · simp [admits, check, Value.expectFunction, hc, h, bind, Except.bind, pure, Except.pure]
      · simp [admits, check, Value.expectFunction, hc, h, bind, Except.bind, throw, throwThe,
          MonadExceptOf.throw]
  | _ => simp [admits, check, Value.expectFunction, bind, Except.bind]

/-- A value that a type admits is admitted by it ever after, if the shape that the type
names exists at some time. -/
theorem admits_mono {before after : Shapes} (hg : before.Grows after) (hb : before.Forest)
    (ha : after.Forest) {earlier later : Heap} (hheap : earlier.Grows later)
    (hlaid : earlier.Laid before) {type : Ty} {known : Shapes} (hhas : type.Has known)
    (h : type.admits before earlier v = true) : type.admits after later v = true := by
  cases type with
  | tableOf shape =>
    obtain ⟨ref, rfl, hshape⟩ := admits_tableOf.1 h
    -- the table has a shape, so it exists and its shape is frozen
    have hrep : 0 < before.resolve shape := Nat.lt_of_lt_of_le hhas.1 (hb.le_resolve shape)
    have hne : (earlier.table ref).layout.shape ≠ dynamicShape := by
      rw [hshape]
      exact Nat.ne_of_gt hrep
    have hfrozen : before.isFrozen shape = true := by
      rw [Shapes.isFrozen, Shapes.representative, ← hshape]
      exact ((hlaid ref).compiled hne).frozen
    refine admits_tableOf.2 ⟨ref, rfl, ?_⟩
    rw [hheap.layout (Heap.lt_of_shape hne), hshape, hg.resolve_eq_of_frozen hb ha hfrozen]
  | function proto =>
    obtain ⟨ref, c, rfl, hc, hid⟩ := admits_function.1 h
    exact admits_function.2 ⟨ref, c, rfl, hheap.closureOf? hc, hid⟩
  | _ => exact h

/-- Types that are named alike admit the same values. -/
theorem admits_congr {a b : Ty} (hf : shapes.Forest)
    (h : a.canonical shapes = b.canonical shapes) :
    a.admits shapes heap v = b.admits shapes heap v := by
  have hcanonical (type : Ty) :
      (type.canonical shapes).admits shapes heap v = type.admits shapes heap v := by
    cases type with
    | tableOf shape =>
      rw [Bool.eq_iff_iff, admits_tableOf]
      show (Ty.tableOf (shapes.resolve shape)).admits shapes heap v = true ↔ _
      rw [admits_tableOf, hf.resolve_resolve]
    | _ => rfl
  rw [← hcanonical a, h, hcanonical b]

end Ty

/-! ## Growth of a machine -/

namespace Machine

/-- A type admits a value at present. -/
def Admits (m : Machine) (type : Ty) (v : Value) : Prop :=
  type.admits m.shapes m.heap v = true

/-- What happens to a machine: nothing is lost. -/
structure Grows (before after : Machine) : Prop where
  program : before.program.Extends after.program
  knowledge : before.knowledge.Grows after.knowledge
  heap : before.heap.Grows after.heap
  sites : before.sites.Grows after.sites
  moments : ∀ {t : Moment}, before.moments t → after.moments t

namespace Grows

theorem refl (m : Machine) : m.Grows m :=
  ⟨fun _ _ h => h, .refl _, .refl _, fun h => h, fun h => h⟩

theorem trans {a b c : Machine} (hab : a.Grows b) (hbc : b.Grows c) : a.Grows c :=
  ⟨fun _ _ h => hbc.program _ _ (hab.program _ _ h), hab.knowledge.trans hbc.knowledge, hab.heap.trans hbc.heap,
    fun h => hbc.sites (hab.sites h), fun h => hbc.moments (hab.moments h)⟩

theorem shapes {before after : Machine} (hg : before.Grows after) :
    before.shapes.Grows after.shapes :=
  hg.knowledge.shapes

end Grows
end Machine
end AdaptiveScript
