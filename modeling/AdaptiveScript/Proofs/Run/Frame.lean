import AdaptiveScript.Proofs.Run.Objects

/-!
# Running routines

An activation is one run of the body of a function.  It is typed in several ways at once.
The code was emitted under one typing, which says how results are unboxed.  The return types
that other functions count on come from another typing of the same body, found for
parameters of any type, and they may be asked for long after the run.  So an activation has
a whole family of typings, which are judged at different times.  A `View` is a typing with
the machine in which it is judged, and `Activation.Sees` says which views an activation has:
those of its body that hold of its arguments and its upvalues.

`Activation.Typed` is the invariant of its frame.  In every view, the locals that are
assigned hold values of their types.  Only locals that no closure shares have types, and
these are kept in the frame, so the invariant survives whatever happens to the shared
objects (`Typed.mono`).
-/

namespace AdaptiveScript

/-! ## Frames without types -/

namespace Frame

/-- A frame as plain execution has it. -/
def bare (frame : Frame) : Frame :=
  { frame with constants := #[], types := [] }

variable {heap plain : Heap}

theorem read_bare (h : heap.Alike plain) (frame : Frame) (slot : Nat) :
    frame.bare.read plain slot = frame.read heap slot := by
  have hlocals : frame.bare.locals = frame.locals := rfl
  unfold read
  rw [hlocals]
  cases frame.locals[slot]? with
  | none => rfl
  | some kept =>
    cases kept with
    | plain v => rfl
    | shared cell => exact h.cell cell

theorem capture_bare (frame : Frame) : frame.bare.capture = frame.capture := by
  funext c
  cases c <;> rfl

theorem declare_bare (h : heap.Alike plain) (frame : Frame) (slot : Nat) (v : Value) :
    (frame.bare.declare plain slot v).1 = (frame.declare heap slot v).1.bare ∧
      (frame.declare heap slot v).2.Alike (frame.bare.declare plain slot v).2 := by
  have hlocals : frame.bare.locals = frame.locals := rfl
  unfold declare
  rw [hlocals]
  cases frame.locals[slot]? with
  | none => exact ⟨rfl, h⟩
  | some kept =>
    cases kept with
    | plain old => exact ⟨rfl, h⟩
    | shared old =>
      obtain ⟨hcell, halike⟩ := h.addCell v
      refine ⟨?_, halike⟩
      show Frame.mk frame.engine (frame.locals.setIfInBounds slot (.shared (plain.addCell v).1))
        frame.upvalues #[] [] = _
      rw [hcell]
      rfl

theorem write_bare (h : heap.Alike plain) (frame : Frame) (slot : Nat) (v : Value) :
    (frame.bare.write plain slot v).1 = (frame.write heap slot v).1.bare ∧
      (frame.write heap slot v).2.Alike (frame.bare.write plain slot v).2 := by
  have hlocals : frame.bare.locals = frame.locals := rfl
  unfold write
  rw [hlocals]
  cases frame.locals[slot]? with
  | none => exact ⟨rfl, h⟩
  | some kept =>
    cases kept with
    | plain old => exact ⟨rfl, h⟩
    | shared cell => exact ⟨rfl, h.setCell cell v⟩

theorem openLocals_alike : ∀ (initial : List (Value × Bool)) {heap plain : Heap},
    heap.Alike plain → (openLocals plain initial).1 = (openLocals heap initial).1 ∧
      (openLocals heap initial).2.Alike (openLocals plain initial).2
  | [], _, _, h => ⟨rfl, h⟩
  | (v, false) :: rest, _, _, h => by
    obtain ⟨hlocals, halike⟩ := openLocals_alike rest h
    exact ⟨congrArg (Variable.plain v :: ·) hlocals, halike⟩
  | (v, true) :: rest, _, _, h => by
    obtain ⟨hcell, hadd⟩ := h.addCell v
    obtain ⟨hlocals, halike⟩ := openLocals_alike rest hadd
    exact ⟨List.cons_eq_cons.2 ⟨congrArg Variable.shared hcell, hlocals⟩, halike⟩

/-! ## What frames do to the heap -/

/-- Only cells change. -/
structure CellsOnly (before after : Heap) : Prop where
  tables : after.tables = before.tables
  functions : after.functions = before.functions

theorem CellsOnly.trans {a b c : Heap} (hab : CellsOnly a b) (hbc : CellsOnly b c) :
    CellsOnly a c :=
  ⟨hbc.tables.trans hab.tables, hbc.functions.trans hab.functions⟩

theorem cellsOnly_declare (frame : Frame) (heap : Heap) (slot : Nat) (v : Value) :
    CellsOnly heap (frame.declare heap slot v).2 := by
  unfold declare
  split <;> exact ⟨rfl, rfl⟩

theorem cellsOnly_write (frame : Frame) (heap : Heap) (slot : Nat) (v : Value) :
    CellsOnly heap (frame.write heap slot v).2 := by
  unfold write
  split <;> exact ⟨rfl, rfl⟩

theorem cellsOnly_openLocals : ∀ (initial : List (Value × Bool)) (heap : Heap),
    CellsOnly heap (openLocals heap initial).2
  | [], _ => ⟨rfl, rfl⟩
  | (_, false) :: rest, heap => cellsOnly_openLocals rest heap
  | (v, true) :: rest, heap =>
    have hadd : CellsOnly heap (heap.addCell v).2 := ⟨rfl, rfl⟩
    hadd.trans (cellsOnly_openLocals rest _)

end Frame

theorem Machine.Evolves.setCells {m : Machine} (h : m.Sound) {heap : Heap}
    (hcells : Frame.CellsOnly m.heap heap) : m.Evolves (m.setHeap heap) :=
  .setHeap_of_functions h (.of_cells hcells.tables hcells.functions)
    (Heap.laid_of_tables h.laid hcells.tables) hcells.functions

/-! ## Activations -/

/-- A typing of a body, with its return types and the machine that it is judged in. -/
structure View where
  /-- The machine. -/
  machine : Machine
  /-- The typing. -/
  typing : Typing
  /-- The return types. -/
  returns : List Ty

/-- One run of the body of a function. -/
structure Activation where
  /-- The machine that it started in. -/
  entry : Machine
  /-- The function. -/
  proto : Prototype
  /-- The typing that the code was emitted under. -/
  typing : Typing
  /-- The return types under that typing. -/
  returns : List Ty
  /-- The constants of the code. -/
  constants : Array Value
  /-- The engine. -/
  engine : EngineId
  /-- The cells of the upvalues. -/
  cells : List CellId
  /-- The arguments. -/
  args : List Value

namespace Activation

variable (act : Activation)

/-- What the code refers to. -/
def setting : Setting :=
  act.entry.setting act.constants act.proto act.typing

/-- What the activation sees from a machine on: the typings of its body that hold of the
arguments, and of the upvalues for as long as promises are kept, judged in a machine that
comes later. -/
structure Sees (m : Machine) (view : View) : Prop where
  sound : view.machine.Sound
  grows : m.Grows view.machine
  respects : view.typing.Respects act.proto
  typed : BodyTyped view.machine.knowledge view.typing view.returns act.proto.body
  params : ∀ slot < act.proto.paramCount,
    view.machine.Admits (view.typing.slot slot) (act.args[slot]?.getD .nil)
  upvalues : ∀ {m : Machine}, act.entry.Grows m → m.Sound → m.Fair → m.Grows view.machine →
    ∀ (i : Nat) (cell : CellId), act.cells[i]? = some cell →
      view.machine.Admits (view.typing.upvalue i) (m.heap.cell cell)

/-- The typing of the code as it is judged in a machine. -/
def ownView (m : Machine) : View :=
  ⟨m, act.typing, act.returns⟩

/-- The activation started in a sound machine, and it sees the typing of the code. -/
structure Ok : Prop where
  sound : act.entry.Sound
  own : ∀ {m : Machine}, act.entry.Grows m → m.Sound → act.Sees m (act.ownView m)

/-- A frame of the activation. -/
structure IsFrame (frame : Frame) : Prop where
  engine_eq : frame.engine = act.engine
  upvalues_eq : frame.upvalues = act.cells
  constants_eq : frame.constants = act.constants
  types_eq : frame.types = (List.range act.proto.localCount).map act.typing.slot
  size_eq : frame.locals.size = act.proto.localCount
  shared : ∀ (slot : Nat) (cell : CellId), frame.locals[slot]? = some (.shared cell) →
    act.proto.isCaptured slot = true

/-- In every view, the locals that are assigned hold values of their types. -/
def Typed (m : Machine) (frame : Frame) (D : Slots) : Prop :=
  ∀ ⦃view : View⦄, act.Sees m view → ∀ slot : Nat, D slot = true → slot < act.proto.localCount →
    view.machine.Admits (view.typing.slot slot) (frame.read m.heap slot)

variable {act}

/-- What is seen from a machine on is seen from earlier machines on. -/
theorem Sees.earlier {m m' : Machine} {view : View} (h : act.Sees m' view) (hg : m.Grows m') :
    act.Sees m view :=
  { h with grows := hg.trans h.grows }

theorem IsFrame.typeOf {frame : Frame} (h : act.IsFrame frame) {slot : Nat}
    (hslot : slot < act.proto.localCount) : frame.typeOf slot = act.typing.slot slot := by
  unfold Frame.typeOf
  rw [h.types_eq, List.getElem?_map, List.getElem?_range hslot]
  rfl

/-- A local that a typing says something about is kept in the frame. -/
theorem IsFrame.plain_of_ne {frame : Frame} (h : act.IsFrame frame) {Γ : Typing}
    (hΓ : Γ.Respects act.proto) {slot : Nat} (hslot : slot < act.proto.localCount)
    (hne : Γ.slot slot ≠ .unknown) : ∃ v, frame.locals[slot]? = some (.plain v) := by
  have hlt : slot < frame.locals.size := by rw [h.size_eq]; exact hslot
  cases hvar : frame.locals[slot] with
  | plain v => exact ⟨v, by rw [Array.getElem?_eq_getElem hlt, hvar]⟩
  | shared cell =>
    have hcaptured := h.shared slot cell (by rw [Array.getElem?_eq_getElem hlt, hvar])
    exact absurd (hΓ hcaptured) hne

theorem Typed.subset {m : Machine} {frame : Frame} {D E : Slots}
    (hsub : E.Subset D) (h : act.Typed m frame D) : act.Typed m frame E :=
  fun _ hview slot hslot hlt => h hview slot (hsub slot hslot) hlt

/-- Locals keep their types while other things happen. -/
theorem Typed.mono {m m' : Machine} (hg : m.Grows m') {frame : Frame}
    (hframe : act.IsFrame frame) {D : Slots} (h : act.Typed m frame D) :
    act.Typed m' frame D := by
  intro view hview slot hslot hlt
  by_cases hunknown : view.typing.slot slot = .unknown
  · rw [hunknown]
    exact Ty.admits_unknown _ _ _
  · obtain ⟨v, hv⟩ := hframe.plain_of_ne hview.respects hlt hunknown
    have hread (heap : Heap) : frame.read heap slot = v := by
      unfold Frame.read
      rw [hv]
    have hbefore := h (hview.earlier hg) slot hslot hlt
    rw [hread] at hbefore ⊢
    exact hbefore

end Activation
end AdaptiveScript
