import AdaptiveScript.Host

/-!
# Shared objects

Tables, cells and functions are shared between values, so they live in a heap and are
referred to by number.  A cell holds one variable that closures share.

A function is a closure (a prototype with the cells of its upvalues), a host function, or
another callable of the host.
-/

namespace AdaptiveScript

/-- Reference to a cell. -/
abbrev CellId := Nat

/-- A closure: a prototype with the cells of its upvalues.  It belongs to an engine. -/
structure Closure where
  /-- Its prototype. -/
  proto : PrototypeRef
  /-- The cells of its upvalues. -/
  cells : List CellId
  /-- The engine that runs it when it is called from outside. -/
  engine : EngineId
  deriving DecidableEq, Repr

/-- A function. -/
inductive FunctionObject where
  | closure (c : Closure)
  | host (overloads : List Overload)
  /-- Another callable of the host, without patterns. -/
  | foreign (action : Action)

/-- All shared objects. -/
structure Heap where
  /-- The tables by number. -/
  tables : Array Table
  /-- The contents of the cells by number. -/
  cells : Array Value
  /-- The functions by number. -/
  functions : Array FunctionObject

namespace Heap

/-- No objects. -/
def empty : Heap :=
  ⟨#[], #[], #[]⟩

/-! ## Tables -/

/-- The table a reference stands for. -/
def table (heap : Heap) (id : TableId) : Table :=
  heap.tables.getD id Table.empty

/-- Make a table. -/
def addTable (heap : Heap) (t : Table) : TableId × Heap :=
  (heap.tables.size, { heap with tables := heap.tables.push t })

/-- Replace the contents of a table. -/
def setTable (heap : Heap) (id : TableId) (t : Table) : Heap :=
  { heap with tables := heap.tables.setIfInBounds id t }

/-- The length of a table. -/
def border (heap : Heap) (id : TableId) : Int64 :=
  Int64.ofNat (heap.table id).border

@[simp] theorem table_addTable (heap : Heap) (t : Table) :
    (heap.addTable t).2.table (heap.addTable t).1 = t := by
  simp [table, addTable]

theorem table_addTable_of_lt {heap : Heap} {id : TableId} (h : id < heap.tables.size) (t : Table) :
    (heap.addTable t).2.table id = heap.table id := by
  simp [table, addTable, Array.getD_eq_getD_getElem?, Array.getElem?_push, Nat.ne_of_lt h]

theorem table_setTable_self {heap : Heap} {id : TableId} (h : id < heap.tables.size) (t : Table) :
    (heap.setTable id t).table id = t := by
  simp [table, setTable, h]

theorem table_setTable_of_ne {heap : Heap} {id other : TableId} (h : other ≠ id) (t : Table) :
    (heap.setTable id t).table other = heap.table other := by
  simp [table, setTable, Array.getD_eq_getD_getElem?, Ne.symm h]

/-! ## Cells -/

/-- The contents of a cell. -/
def cell (heap : Heap) (id : CellId) : Value :=
  heap.cells.getD id .nil

/-- Make a cell. -/
def addCell (heap : Heap) (v : Value) : CellId × Heap :=
  (heap.cells.size, { heap with cells := heap.cells.push v })

/-- Make one cell per value. -/
def addCells (heap : Heap) : List Value → List CellId × Heap
  | [] => ([], heap)
  | v :: vs =>
    let (id, heap) := heap.addCell v
    let (ids, heap) := addCells heap vs
    (id :: ids, heap)

/-- Replace the contents of a cell. -/
def setCell (heap : Heap) (id : CellId) (v : Value) : Heap :=
  { heap with cells := heap.cells.setIfInBounds id v }

@[simp] theorem cell_addCell (heap : Heap) (v : Value) :
    (heap.addCell v).2.cell (heap.addCell v).1 = v := by
  simp [cell, addCell]

theorem cell_addCell_of_lt {heap : Heap} {id : CellId} (h : id < heap.cells.size) (v : Value) :
    (heap.addCell v).2.cell id = heap.cell id := by
  simp [cell, addCell, Array.getD_eq_getD_getElem?, Array.getElem?_push, Nat.ne_of_lt h]

theorem cell_setCell_self {heap : Heap} {id : CellId} (h : id < heap.cells.size) (v : Value) :
    (heap.setCell id v).cell id = v := by
  simp [cell, setCell, h]

theorem cell_setCell_of_ne {heap : Heap} {id other : CellId} (h : other ≠ id) (v : Value) :
    (heap.setCell id v).cell other = heap.cell other := by
  simp [cell, setCell, Array.getD_eq_getD_getElem?, Ne.symm h]

/-! ## Functions -/

/-- The function a reference stands for. -/
def function? (heap : Heap) (ref : FunctionRef) : Option FunctionObject :=
  heap.functions[ref.id]?

/-- Make a function. -/
def addFunction (heap : Heap) (name : String) (f : FunctionObject) : FunctionRef × Heap :=
  (⟨heap.functions.size, name⟩, { heap with functions := heap.functions.push f })

@[simp] theorem function?_addFunction (heap : Heap) (name : String) (f : FunctionObject) :
    (heap.addFunction name f).2.function? (heap.addFunction name f).1 = some f := by
  simp [function?, addFunction]

/-- The closure a function is. -/
def closureOf? (heap : Heap) (ref : FunctionRef) : Option Closure :=
  match heap.function? ref with
  | some (.closure c) => some c
  | _ => none

/-- The closure a value is. -/
def closure? (heap : Heap) : Value → Option Closure
  | .function ref => heap.closureOf? ref
  | _ => none

/-- The overloads of a host function. -/
def overloads? (heap : Heap) (ref : FunctionRef) : Option (List Overload) :=
  match heap.function? ref with
  | some (.host overloads) => some overloads
  | _ => none

end Heap
end AdaptiveScript
