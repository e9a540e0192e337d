import AdaptiveScript.Proofs.Linking.Link
import AdaptiveScript.Proofs.Program.Assigned

/-!
# Promises of a program

A prototype may declare the type of an upvalue, and may declare that the cell of an upvalue
is sealed: not written once a closure has it.  Nothing checks these declarations when a cell
is written.  Specialized code counts on them, so what can be said about a run is said of
runs that keep them.

The shared objects have many states in a run, and a declaration is kept only if it holds in
all of them.  A machine remembers these states as its moments, so the promises are a
property of the machine after the run (`Machine.Kept`).  A run that keeps the promises up
to its end kept them up to every point before (`Machine.Fair.of_grows`).
-/

namespace AdaptiveScript

/-- At a moment, the upvalues of all closures hold values of the types declared for them. -/
def Moment.Declared (program : Program) (t : Moment) : Prop :=
  ∀ (ref : FunctionRef) (c : Closure) (proto : Prototype) (i : Nat) (template : UpvalueTemplate)
    (cell : CellId) (type : Ty), t.heap.closureOf? ref = some c →
    program.prototype? c.proto = some proto → proto.upvalues[i]? = some template →
    c.cells[i]? = some cell → template.knownType = some type →
    type.admits t.shapes t.heap (t.heap.cell cell) = true

/-- The sealed upvalues of the closures that there are at two moments hold the same values at
both. -/
def Moment.Sealed (program : Program) (t t' : Moment) : Prop :=
  ∀ (ref : FunctionRef) (c : Closure) (proto : Prototype) (i : Nat) (template : UpvalueTemplate)
    (cell : CellId), t.heap.closureOf? ref = some c → t'.heap.closureOf? ref = some c →
    program.prototype? c.proto = some proto → proto.upvalues[i]? = some template →
    c.cells[i]? = some cell → template.isSealed = true → t.heap.cell cell = t'.heap.cell cell

namespace Machine

/-- What the program declares of upvalues has been true at all moments. -/
structure Kept (m : Machine) : Prop where
  declared : ∀ t, m.moments t → t.Declared m.program
  unwritten : ∀ t t', m.moments t → m.moments t' → t.Sealed m.program t'

/-- The program reads locals only when they are assigned, and its promises were kept. -/
structure Fair (m : Machine) : Prop where
  assigned : m.program.readsAssigned = true
  kept : m.Kept

/-- Machines that lead to a fair one are fair: their programs have fewer prototypes, and they
remember fewer moments. -/
theorem Fair.of_grows {m m' : Machine} (hg : m.Grows m') (h : m'.Fair) : m.Fair where
  assigned := by
    refine Array.all_eq_true_iff_forall_mem.mpr fun proto hproto => ?_
    obtain ⟨index, hat⟩ := Array.getElem?_of_mem hproto
    exact Program.readsAssigned_of_mem h.assigned (Array.mem_of_getElem? (hg.program index proto hat))
  kept := by
    refine ⟨fun t ht ref c proto i template cell type hc hproto => ?_,
      fun t t' ht ht' ref c proto i template cell hc hc' hproto => ?_⟩
    · exact h.kept.declared t (hg.moments ht) ref c proto i template cell type hc
        (hg.program.prototype? hproto)
    · exact h.kept.unwritten t t' (hg.moments ht) (hg.moments ht') ref c proto i template cell hc hc'
        (hg.program.prototype? hproto)

theorem Fair.of_evolves {m m' : Machine} (hev : m.Evolves m') (h : m'.Fair) : m.Fair :=
  h.of_grows hev.grows

/-- Declared upvalues have their types now. -/
theorem Kept.admits {m : Machine} (h : m.Sound) (hkept : m.Kept) {ref : FunctionRef}
    {c : Closure} {proto : Prototype} (hc : m.heap.closureOf? ref = some c)
    (hproto : m.program.prototype? c.proto = some proto) {i : Nat} {template : UpvalueTemplate}
    {cell : CellId} {type : Ty} (htemplate : proto.upvalues[i]? = some template)
    (hcell : c.cells[i]? = some cell) (htype : template.knownType = some type) :
    m.Admits type (m.heap.cell cell) := by
  -- the shapes may have grown since the present objects were remembered
  obtain ⟨shapes, hmoment, hforest, hgrows, hlaid⟩ := h.recorded
  have hthen := hkept.declared _ hmoment ref c proto i template cell type hc hproto htemplate
    hcell htype
  have hhas := Linking.has_knownType h hproto htemplate htype
  exact Ty.admits_mono hgrows hforest h.forest (.refl _) hlaid hhas hthen

/-- A closure keeps what its prototype declares. -/
theorem Kept.keeps {m : Machine} (h : m.Sound) (hkept : m.Kept) {ref : FunctionRef} {c : Closure}
    {proto : Prototype} (hc : m.heap.closureOf? ref = some c)
    (hproto : m.program.prototype? c.proto = some proto)
    (hlength : c.cells.length = proto.upvalues.size) : c.Keeps m proto :=
  ⟨hproto, hlength, fun _ _ _ _ htemplate hcell htype =>
    hkept.admits h hc hproto htemplate hcell htype⟩

/-- Sealed upvalues hold what they held before. -/
theorem Kept.cell_eq {m m' : Machine} (h : m.Sound) (h' : m'.Sound) (hg : m.Grows m')
    (hkept : m'.Kept) {ref : FunctionRef} {c : Closure} {proto : Prototype}
    (hc : m.heap.closureOf? ref = some c) (hproto : m.program.prototype? c.proto = some proto)
    {i : Nat} {template : UpvalueTemplate} {cell : CellId}
    (htemplate : proto.upvalues[i]? = some template) (hcell : c.cells[i]? = some cell)
    (hsealed : template.isSealed = true) : m'.heap.cell cell = m.heap.cell cell := by
  obtain ⟨_, hmoment, -⟩ := h.recorded
  obtain ⟨_, hmoment', -⟩ := h'.recorded
  exact hkept.unwritten _ _ hmoment' (hg.moments hmoment) ref c proto i template cell
    (hg.heap.closureOf? hc) hc (hg.program.prototype? hproto) htemplate hcell hsealed

end Machine
end AdaptiveScript
