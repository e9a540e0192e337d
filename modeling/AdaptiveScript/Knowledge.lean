import AdaptiveScript.Journal

/-!
# What analysis learns

Analysis of different functions shares three things: the shapes of table constructors,
the return types found for prototypes, and the journal.  They grow with every analysis
and are never reset, so what one function teaches is there for the next.
-/

namespace AdaptiveScript

/-- What has been learnt so far. -/
structure Knowledge where
  /-- All shapes. -/
  shapes : Shapes
  /-- The return types found for prototypes, by number. -/
  returns : List (Nat × List Ty)
  /-- All events, in order. -/
  journal : Array Event

namespace Knowledge

/-- Nothing is known yet. -/
def empty : Knowledge :=
  ⟨Shapes.empty, [], #[]⟩

end Knowledge

/-- Computations that learn. -/
abbrev Learn := StateM Knowledge

namespace Learn

/-- Write an event down. -/
def note (event : Event) : Learn Unit :=
  modify fun k => { k with journal := k.journal.push event }

/-- Make a shape. -/
def newShape : Learn ShapeId :=
  modifyGet fun k =>
    let (id, shapes) := k.shapes.fresh
    (id, { k with shapes })

/-- Record a key of a shape. -/
def amend (shape : ShapeId) (key : String) (type : Ty) : Learn Unit :=
  modify fun k => { k with shapes := k.shapes.amend shape key type }

/-- Record that a shape receives keys outside its layout. -/
def amendUnknown (shape : ShapeId) : Learn Unit :=
  modify fun k => { k with shapes := k.shapes.amendUnknown shape }

/-- The type of tables of a shape. -/
def tableType (shape : ShapeId) : Learn Ty := do
  return Ty.ofShape (← get).shapes shape

/-- The layout of a shape.  The first request freezes the shape. -/
def compileShape (shape : ShapeId) : Learn Layout := do
  let shapes := (← get).shapes
  let layout := shapes.layout shape
  if !shapes.isFrozen shape then
    note (.shapeCompiled layout.shape layout.keys.size layout.spills)
    modify fun k => { k with shapes := k.shapes.freeze shape }
  return layout

/-- Merge two shapes; nothing comes of it if one of them is frozen. -/
def mergeShapes (a b : ShapeId) : Learn (Option ShapeId) := do
  let (outcome, shapes) := (← get).shapes.merge a b
  modify fun k => { k with shapes }
  match outcome with
  | .joined left right merged => note (.shapesMerged left right merged)
  | _ => pure ()
  return outcome.representative?

end Learn
end AdaptiveScript
