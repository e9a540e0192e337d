import AdaptiveScript.Conversion
import AdaptiveScript.Heap
import AdaptiveScript.Shape

/-!
# Values and their types

`Ty.check` tells whether a value belongs to a type, and if not, why; it never converts.
`Ty.ofValue` is the most precise type of a value that an engine can name: it names the
shape of a table only if the engine has registered that shape.
-/

namespace AdaptiveScript
namespace Ty

/-- Check that a value belongs to a type. -/
def check (shapes : Shapes) (heap : Heap) : Ty → Value → Except RuntimeError Unit
  | .unknown, _ => .ok ()
  | .nil, v => v.expectNil
  | .boolean, v => v.expectBool.map fun _ => ()
  | .integer, v => v.expectInt.map fun _ => ()
  | .float, v => v.expectFloat.map fun _ => ()
  | .string, v => v.expectStr.map fun _ => ()
  | .anyTable, v => v.expectTable.map fun _ => ()
  | .tableOf shape, v => do
    let ref ← v.expectTable
    let actual := (heap.table ref).layout.shape
    if actual = shapes.resolve shape then return ()
    else throw (.expectedShape (.tableOf shape) actual)
  | .function proto, v => do
    let ref ← v.expectFunction
    match heap.closureOf? ref with
    | some c =>
      if c.proto.id = proto.id then return ()
      else throw (.expectedFunction (.function proto) ref.name)
    | none => throw (.expectedFunction (.function proto) ref.name)

/-- Whether a value belongs to a type. -/
def admits (shapes : Shapes) (heap : Heap) (type : Ty) (v : Value) : Bool :=
  match check shapes heap type v with
  | .ok _ => true
  | .error _ => false

/-- The most precise type of a value among the shapes an engine knows. -/
def ofValue (registry : Registry) (heap : Heap) : Value → Ty
  | .nil => .nil
  | .bool _ => .boolean
  | .int _ => .integer
  | .float _ => .float
  | .str _ => .string
  | .table ref =>
    let shape := (heap.table ref).layout.shape
    if shape ≠ dynamicShape ∧ registry.contains shape then .tableOf shape else .anyTable
  | .function ref =>
    match heap.closureOf? ref with
    | some c => .function c.proto
    | none => .unknown

end Ty

namespace Pattern

/-- Whether a pattern takes a value. -/
def admits (shapes : Shapes) (heap : Heap) : Pattern → Value → Bool
  | .any, _ => true
  | .exact type, v => type.admits shapes heap v

end Pattern

namespace Overload

/-- Whether the patterns take the given values. -/
def admits (shapes : Shapes) (heap : Heap) (overload : Overload) (args : List Value) : Bool :=
  overload.params.length == args.length
    && (overload.params.zip args).all fun (pattern, v) => pattern.admits shapes heap v

/-- Whether an overload exists and takes the given values. -/
def matchesAt (shapes : Shapes) (heap : Heap) (overloads : List Overload) (index : Nat)
    (args : List Value) : Bool :=
  match overloads[index]? with
  | some overload => overload.admits shapes heap args
  | none => false

/-- The first overload that takes the given values. -/
def selectValues? (shapes : Shapes) (heap : Heap) (overloads : List Overload)
    (args : List Value) : Option Nat :=
  overloads.findIdx? fun overload => overload.admits shapes heap args

end Overload
end AdaptiveScript
