import AdaptiveScript.Heap

/-!
# Frames

A frame holds the locals of a running routine.  A local that some function literal
captures is kept in a cell, shared with the closures that captured it; declaring such a
local anew gives it a fresh cell, so closures made earlier keep the old variable.  All
other locals are kept in the frame.
-/

namespace AdaptiveScript

/-- How a local is kept. -/
inductive Variable where
  | plain (v : Value)
  | shared (cell : CellId)
  deriving DecidableEq

/-- The state of a running routine. -/
structure Frame where
  /-- The engine it runs in. -/
  engine : EngineId
  /-- Its locals. -/
  locals : Array Variable
  /-- The cells of its upvalues. -/
  upvalues : List CellId
  /-- The constants of its code. -/
  constants : Array Value
  /-- The types found for its locals. -/
  types : List Ty

namespace Frame

/-- The locals of a routine that is entered, from their initial values and whether each is
captured. -/
def openLocals (heap : Heap) : List (Value × Bool) → List Variable × Heap
  | [] => ([], heap)
  | (v, captured) :: rest =>
    let (first, heap) :=
      if captured then
        let (cell, heap) := heap.addCell v
        (Variable.shared cell, heap)
      else (.plain v, heap)
    let (others, heap) := openLocals heap rest
    (first :: others, heap)

/-- The value of a local. -/
def read (frame : Frame) (heap : Heap) (slot : Nat) : Value :=
  match frame.locals[slot]? with
  | some (.plain v) => v
  | some (.shared cell) => heap.cell cell
  | none => .nil

/-- Assign to a local. -/
def write (frame : Frame) (heap : Heap) (slot : Nat) (v : Value) : Frame × Heap :=
  match frame.locals[slot]? with
  | some (.plain _) => ({ frame with locals := frame.locals.setIfInBounds slot (.plain v) }, heap)
  | some (.shared cell) => (frame, heap.setCell cell v)
  | none => (frame, heap)

/-- Start a new variable in a slot. -/
def declare (frame : Frame) (heap : Heap) (slot : Nat) (v : Value) : Frame × Heap :=
  match frame.locals[slot]? with
  | some (.plain _) => ({ frame with locals := frame.locals.setIfInBounds slot (.plain v) }, heap)
  | some (.shared _) =>
    let (cell, heap) := heap.addCell v
    ({ frame with locals := frame.locals.setIfInBounds slot (.shared cell) }, heap)
  | none => (frame, heap)

/-- The cell of an upvalue. -/
def upvalue (frame : Frame) (index : Nat) : Except RuntimeError CellId :=
  match frame.upvalues[index]? with
  | some cell => .ok cell
  | none => .error (.upvalueRange index frame.upvalues.length)

/-- The cell that a function literal closes over. -/
def capture (frame : Frame) : Capture → Except RuntimeError CellId
  | .slot index =>
    match frame.locals[index]? with
    | some (.shared cell) => .ok cell
    | _ => .error (.unboxedCapture index)
  | .upvalue index => frame.upvalue index

/-- The type found for a local. -/
def typeOf (frame : Frame) (slot : Nat) : Ty :=
  frame.types[slot]?.getD .unknown

/-- A constant of the code. -/
def constant (frame : Frame) (index : Nat) : Value :=
  frame.constants.getD index .nil

/-- A new variable starts with its initial value. -/
theorem read_declare_self {frame : Frame} {slot : Nat} (h : slot < frame.locals.size)
    (heap : Heap) (v : Value) :
    (frame.declare heap slot v).1.read (frame.declare heap slot v).2 slot = v := by
  unfold declare
  rw [Array.getElem?_eq_getElem h]
  cases frame.locals[slot] with
  | plain old => simp [read, h]
  | shared cell => simp [read, h]

end Frame
end AdaptiveScript
