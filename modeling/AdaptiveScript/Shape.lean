import AdaptiveScript.Table

/-!
# Shapes

A shape collects the constant text keys of a table constructor while the function around
it is analysed.  Compiling a shape turns its keys, in the order they were found, into the
slots of a layout and freezes it: what is found later is ignored.

Two shapes that are not frozen can be merged.  Both are then forwarded to a fresh shape
that has the keys of both, and every operation on either goes to that representative.
Shapes are numbered from one in the order they are made, so a forward always points to a
larger number; that is why following forwards ends.
-/

namespace AdaptiveScript

/-- What is known about one shape. -/
structure ShapeState where
  /-- The keys found so far, with the type of their values. -/
  keys : List (String × Ty)
  /-- Whether tables of the shape receive keys outside the layout. -/
  spills : Bool
  /-- Whether the layout has been compiled. -/
  frozen : Bool
  /-- The shape this one was merged into. -/
  forward : Option ShapeId
  deriving DecidableEq, Repr

namespace ShapeState

/-- A shape about which nothing is known. -/
def blank : ShapeState :=
  ⟨[], false, false, none⟩

end ShapeState

/-- Add a key with the type of its value; a key that is there already gets the join. -/
def amendKeys (key : String) (type : Ty) : List (String × Ty) → List (String × Ty)
  | [] => [(key, type)]
  | (k, t) :: rest =>
    if k = key then (k, t.join type) :: rest else (k, t) :: amendKeys key type rest

/-- The keys of one shape followed by the new ones of another. -/
def unionKeys (first second : List (String × Ty)) : List (String × Ty) :=
  second.foldl (fun keys entry => amendKeys entry.1 entry.2 keys) first

/-- All shapes made so far. -/
structure Shapes where
  /-- The shapes in the order they were made; the first has number one. -/
  states : Array ShapeState

namespace Shapes

/-- No shapes. -/
def empty : Shapes :=
  ⟨#[]⟩

/-- The state of a shape; nothing is known about a number that no shape has. -/
def state (shapes : Shapes) : ShapeId → ShapeState
  | 0 => .blank
  | index + 1 => shapes.states.getD index .blank

/-- Replace the state of a shape. -/
def setState (shapes : Shapes) (id : ShapeId) (s : ShapeState) : Shapes :=
  match id with
  | 0 => shapes
  | index + 1 => ⟨shapes.states.setIfInBounds index s⟩

/-- Make a shape in a given state. -/
def add (shapes : Shapes) (s : ShapeState) : ShapeId × Shapes :=
  (shapes.states.size + 1, ⟨shapes.states.push s⟩)

@[simp] theorem state_add (shapes : Shapes) (s : ShapeState) :
    (shapes.add s).2.state (shapes.add s).1 = s := by
  simp [state, add]

theorem state_setState_self {shapes : Shapes} {index : Nat} (h : index < shapes.states.size)
    (s : ShapeState) : (shapes.setState (index + 1) s).state (index + 1) = s := by
  simp [state, setState, h]

theorem state_setState_of_ne (shapes : Shapes) {id other : ShapeId} (h : other ≠ id)
    (s : ShapeState) : (shapes.setState id s).state other = shapes.state other := by
  cases id with
  | zero => rfl
  | succ i =>
    cases other with
    | zero => rfl
    | succ j =>
      have hij : i ≠ j := fun e => h (by rw [e])
      simp [state, setState, Array.getD_eq_getD_getElem?, hij]

/-- Make a shape about which nothing is known. -/
def fresh (shapes : Shapes) : ShapeId × Shapes :=
  shapes.add .blank

/-- Follow forwards, at most `bound` of them. -/
def follow (shapes : Shapes) : Nat → ShapeId → ShapeId
  | 0, id => id
  | bound + 1, id =>
    match (shapes.state id).forward with
    | none => id
    | some next => follow shapes bound next

/-- The representative of a shape.  Forwards lead to larger numbers, so there are fewer
of them in a row than there are shapes. -/
def resolve (shapes : Shapes) (id : ShapeId) : ShapeId :=
  shapes.follow shapes.states.size id

/-- The state of a shape's representative. -/
def representative (shapes : Shapes) (id : ShapeId) : ShapeState :=
  shapes.state (shapes.resolve id)

/-- Whether the layout of a shape has been compiled. -/
def isFrozen (shapes : Shapes) (id : ShapeId) : Bool :=
  (shapes.representative id).frozen

/-- The keys of a shape in slot order. -/
def keys (shapes : Shapes) (id : ShapeId) : List String :=
  (shapes.representative id).keys.map Prod.fst

/-- The type found for the values of a key. -/
def keyType? (shapes : Shapes) (id : ShapeId) (key : String) : Option Ty :=
  (shapes.representative id).keys.lookup key

/-- Whether tables of a shape receive keys outside the layout. -/
def spills (shapes : Shapes) (id : ShapeId) : Bool :=
  (shapes.representative id).spills

/-- Record a key.  Only what the type says without naming shapes or prototypes is kept.
Frozen shapes stay as they are. -/
def amend (shapes : Shapes) (id : ShapeId) (key : String) (type : Ty) : Shapes :=
  let rep := shapes.resolve id
  let s := shapes.state rep
  if s.frozen then shapes
  else shapes.setState rep { s with keys := amendKeys key type.shallow s.keys }

/-- Record that tables of a shape receive keys outside the layout.  Frozen shapes stay as
they are. -/
def amendUnknown (shapes : Shapes) (id : ShapeId) : Shapes :=
  let rep := shapes.resolve id
  let s := shapes.state rep
  if s.frozen then shapes else shapes.setState rep { s with spills := true }

/-- The layout that the keys of a shape give. -/
def layout (shapes : Shapes) (id : ShapeId) : Layout :=
  ⟨shapes.resolve id, (shapes.keys id).toArray, shapes.spills id⟩

/-- The types found for the slots of a shape. -/
def slotTypes (shapes : Shapes) (id : ShapeId) : List Ty :=
  (shapes.representative id).keys.map Prod.snd

/-- Freeze a shape; from then on its layout is the one it has now. -/
def freeze (shapes : Shapes) (id : ShapeId) : Shapes :=
  let rep := shapes.resolve id
  shapes.setState rep { shapes.state rep with frozen := true }

/-- What merging two shapes comes to. -/
inductive Merge where
  /-- They have the same representative already. -/
  | same (rep : ShapeId)
  /-- One of them is frozen, so nothing changes. -/
  | refused
  /-- Both were forwarded to a fresh shape. -/
  | joined (left right merged : ShapeId)
  deriving DecidableEq, Repr

namespace Merge

/-- The common representative after a merge, if there is one. -/
def representative? : Merge → Option ShapeId
  | .same rep => some rep
  | .refused => none
  | .joined _ _ merged => some merged

end Merge

/-- Merge two shapes.  The keys of the representative with the smaller number come
first. -/
def merge (shapes : Shapes) (a b : ShapeId) : Merge × Shapes :=
  let ra := shapes.resolve a
  let rb := shapes.resolve b
  if ra = rb then (.same ra, shapes)
  else
    let first := shapes.state (min ra rb)
    let second := shapes.state (max ra rb)
    if first.frozen || second.frozen then (.refused, shapes)
    else
      let (merged, grown) := shapes.add
        { keys := unionKeys first.keys second.keys
          spills := first.spills || second.spills
          frozen := false
          forward := none }
      let linked := (grown.setState ra { shapes.state ra with forward := some merged }).setState rb
        { shapes.state rb with forward := some merged }
      (.joined ra rb merged, linked)

end Shapes

namespace Ty

/-- The type of tables laid out by a shape, named by its representative. -/
def ofShape (shapes : Shapes) (id : ShapeId) : Ty :=
  .tableOf (shapes.resolve id)

/-- A type with its shape named by the representative. -/
def canonical (shapes : Shapes) : Ty → Ty
  | .tableOf shape => ofShape shapes shape
  | t => t

end Ty

/-- The compiled shapes that an engine knows by their number. -/
structure Registry where
  /-- Their numbers. -/
  shapes : List ShapeId
  deriving DecidableEq, Repr

namespace Registry

/-- A registry that knows no shape. -/
def empty : Registry :=
  ⟨[]⟩

/-- Register the representative of a shape. -/
def register (registry : Registry) (shapes : Shapes) (id : ShapeId) : Registry :=
  let rep := shapes.resolve id
  if registry.shapes.contains rep then registry else ⟨rep :: registry.shapes⟩

/-- Whether a number is registered. -/
def contains (registry : Registry) (id : ShapeId) : Bool :=
  registry.shapes.contains id

/-- How many shapes are registered. -/
def size (registry : Registry) : Nat :=
  registry.shapes.length

end Registry
end AdaptiveScript
