import AdaptiveScript.Association
import AdaptiveScript.Error

/-!
# Tables

A table is a finite map from keys to values.  Its layout gives each of some text keys a
slot of its own; all other keys go to a spill list that exists only once the first such
key has been written.  Keyed access consults the layout first, so a slot and its key are
two ways to one entry.  Writing nil removes an entry.

Floats that are whole numbers of magnitude below `2 ^ 53` are the same key as the
integer; NaN and nil are no keys, nor are tables and functions.
-/

namespace AdaptiveScript

/-- A normalized table key. -/
inductive Key where
  | str (s : String)
  | int (n : Int64)
  /-- A float that no integer key stands for, by its word. -/
  | float (bits : UInt64)
  | bool (b : Bool)
  deriving DecidableEq, Repr

namespace Key

/-- The key a value stands for. -/
def ofValue : Value → Except RuntimeError Key
  | .str s => .ok (.str s)
  | .int n => .ok (.int n)
  | .float x =>
    if Binary64.reading x = .nan then .error (.key .nan)
    else if Binary64.isIntegral x && Binary64.absBelow x (1 <<< 53) then
      .ok (.int (Int64.ofInt (Binary64.floor x)))
    else .ok (.float x.toBits)
  | .bool b => .ok (.bool b)
  | .nil => .error (.key .nil)
  | .table t => .error (.key (.unsupported (Value.table t).kind))
  | .function f => .error (.key (.unsupported (Value.function f).kind))

/-- The value a key is read back as. -/
def toValue : Key → Value
  | .str s => .str s
  | .int n => .int n
  | .float bits => .float (Float.ofBits bits)
  | .bool b => .bool b

end Key

/-- Which text keys of a table live in slots. -/
structure Layout where
  /-- The shape this layout was compiled from. -/
  shape : ShapeId
  /-- The keys with a slot, in slot order. -/
  keys : Array String
  /-- Whether tables of this layout are expected to hold further keys. -/
  spills : Bool
  deriving DecidableEq, Repr

namespace Layout

/-- The layout without slots. -/
def dynamic : Layout :=
  ⟨dynamicShape, #[], true⟩

/-- The slot of a key.  Of two slots for one key the later counts. -/
def slotOf? (layout : Layout) (key : String) : Option Nat :=
  (layout.keys.toList.zipIdx.reverse.find? fun entry => entry.1 == key).map Prod.snd

end Layout

/-- A table: its layout, one value per slot, and the other entries. -/
structure Table where
  /-- Which keys have slots. -/
  layout : Layout
  /-- The values in the slots. -/
  slots : Array Value
  /-- The entries of all other keys, once there has been one. -/
  spill : Option (List (Key × Value))

namespace Table

/-- The empty table of a layout. -/
def ofLayout (layout : Layout) : Table :=
  ⟨layout, Array.replicate layout.keys.size .nil, none⟩

/-- The empty table without slots. -/
def empty : Table :=
  ofLayout Layout.dynamic

/-- Whether there has been an entry outside the slots. -/
def hasSpill (t : Table) : Bool :=
  t.spill.isSome

/-- The value in a slot, nil beyond the last. -/
def loadSlot (t : Table) (slot : Nat) : Value :=
  t.slots.getD slot .nil

/-- Put a value into a slot. -/
def storeSlot (t : Table) (slot : Nat) (value : Value) : Except RuntimeError Table :=
  if slot < t.slots.size then .ok { t with slots := t.slots.setIfInBounds slot value }
  else .error (.slotRange slot t.slots.size)

/-- The entries outside the slots. -/
def entries (t : Table) : List (Key × Value) :=
  t.spill.getD []

/-- The slot a key lives in, if it has one. -/
def slotOfKey? (t : Table) : Key → Option Nat
  | .str s => t.layout.slotOf? s
  | _ => none

/-- The value of a key, nil if there is none. -/
def get (t : Table) (key : Key) : Value :=
  match t.slotOfKey? key with
  | some slot => t.loadSlot slot
  | none => (t.entries.lookup key).getD .nil

/-- The value of a text key. -/
def getStr (t : Table) (key : String) : Value :=
  t.get (.str key)

/-- Set the value of a key.  Nil removes an entry and never starts the spill list. -/
def set (t : Table) (key : Key) (value : Value) : Table :=
  match t.slotOfKey? key with
  | some slot => { t with slots := t.slots.setIfInBounds slot value }
  | none =>
    if value.isNil then { t with spill := t.spill.map (Association.without key) }
    else { t with spill := some ((key, value) :: Association.without key t.entries) }

/-- Count upwards from `n` while the next integer is a key, at most `bound` times. -/
def borderFrom (entries : List (Key × Value)) : Nat → Nat → Nat
  | 0, n => n
  | bound + 1, n =>
    if (entries.lookup (.int (Int64.ofNat (n + 1)))).isSome then borderFrom entries bound (n + 1)
    else n

/-- The length of a table: the largest `n` with all of `1, …, n` among its keys.  There
cannot be more of them than entries, nor more than positive integers. -/
def border (t : Table) : Nat :=
  borderFrom t.entries (min t.entries.length Int64.maxValue.toInt.toNat) 0

/-- The values of the keys `1, …, n` up to the length of the table. -/
def sequence (t : Table) : List Value :=
  (List.range t.border).map fun (i : Nat) => t.get (.int (Int64.ofNat (i + 1)))

/-- Whether a key is found by going through the slots and the sequence. -/
def isListed (t : Table) : Key → Bool
  | .str s => t.layout.keys.contains s
  | .int n => 1 ≤ n.toInt && n.toInt ≤ t.border
  | _ => false

/-- Whether every key reads nil. -/
def isEmpty (t : Table) : Bool :=
  t.slots.all Value.isNil && t.entries.isEmpty

/-! ## What reading sees of a write -/

@[simp] theorem layout_set (t : Table) (key : Key) (v : Value) :
    (t.set key v).layout = t.layout := by
  unfold set
  split
  · rfl
  · split <;> rfl

@[simp] theorem size_slots_set (t : Table) (key : Key) (v : Value) :
    (t.set key v).slots.size = t.slots.size := by
  unfold set
  split
  · simp
  · split <;> rfl

@[simp] theorem slotOfKey?_set (t : Table) (key other : Key) (v : Value) :
    (t.set key v).slotOfKey? other = t.slotOfKey? other := by
  cases other <;> simp [slotOfKey?]

/-- What is written to a key outside the slots is read back. -/
theorem get_set_spill {t : Table} {key : Key} (h : t.slotOfKey? key = none) (v : Value) :
    (t.set key v).get key = v := by
  rw [get, slotOfKey?_set, h]
  cases v <;> simp [set, h, Value.isNil, entries]
  cases t.spill <;> simp

/-- What is written to a key with a slot is read back. -/
theorem get_set_slot {t : Table} {key : Key} {slot : Nat} (h : t.slotOfKey? key = some slot)
    (hslot : slot < t.slots.size) (v : Value) : (t.set key v).get key = v := by
  rw [get, slotOfKey?_set, h]
  simp [set, h, loadSlot, hslot]

end Table
end AdaptiveScript
