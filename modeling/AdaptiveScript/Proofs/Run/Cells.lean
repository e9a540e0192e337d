import AdaptiveScript.Proofs.Linking.Entry
import AdaptiveScript.Proofs.Run.LoopRounds
import AdaptiveScript.Proofs.Run.Statement
import AdaptiveScript.Proofs.Run.TypedOperators
import AdaptiveScript.Proofs.Run.Variables

/-!
# Cells are never lost

Cells are made and written but never taken away, so their number only grows, in whatever a run
does and however it ends.  A cell that is made therefore differs from all cells made before it,
however long ago and by whatever code.

And nothing refers to a cell that does not exist.  Closures and the links of call sites hold cells
(`Machine.CellsExist`), and they get them from frames and from each other; a computation that
starts with existing cells passes on existing ones (`KeepsCells`).

For the frame of a running routine this says what time can do to the cells that it refers to
(`Frame.Ages`): a local that is kept in a cell stays in it or moves to a cell made in the
meantime, and the upvalues stay where they are.  All statements age their frame this way
(`lives_exec`).  So a frame that refers to existing cells when its routine is entered
(`Specialization.within_frame`) does so to the end.
-/

namespace AdaptiveScript

namespace Heap

@[simp] theorem size_cells_addCell (heap : Heap) (v : Value) :
    (heap.addCell v).2.cells.size = heap.cells.size + 1 :=
  Array.size_push _

@[simp] theorem size_cells_setCell (heap : Heap) (id : CellId) (v : Value) :
    (heap.setCell id v).cells.size = heap.cells.size :=
  Array.size_setIfInBounds

/-- Some cells exist. -/
def HasCells (heap : Heap) (refs : CellId → Prop) : Prop :=
  ∀ ⦃cell : CellId⦄, refs cell → cell < heap.cells.size

theorem HasCells.mono {heap heap' : Heap} {refs : CellId → Prop} (h : heap.HasCells refs)
    (hcells : heap.cells.size ≤ heap'.cells.size) : heap'.HasCells refs :=
  fun _ hcell => Nat.lt_of_lt_of_le (h hcell) hcells

end Heap

/-! ## Frames and the cells they refer to -/

namespace Frame

variable {frame : Frame} {heap : Heap} {slot other : Nat} {v : Value} {cell : CellId}

theorem capture_slot_eq_ok_iff :
    frame.capture (.slot slot) = .ok cell ↔ frame.locals[slot]? = some (.shared cell) := by
  unfold capture
  dsimp only
  split
  · next kept hkept =>
    rw [hkept, Except.ok.injEq, Option.some_inj, Variable.shared.injEq]
  · next hnot =>
    refine ⟨fun h => (by cases h), fun h => ?_⟩
    exact absurd h (hnot cell)

/-- The cells that a frame refers to exist. -/
def Within (frame : Frame) (heap : Heap) : Prop :=
  ∀ ⦃capture : Capture⦄ ⦃cell : CellId⦄, frame.capture capture = .ok cell →
    cell < heap.cells.size

/-- A frame refers to a cell. -/
def Refers (frame : Frame) (cell : CellId) : Prop :=
  ∃ capture, frame.capture capture = .ok cell

theorem refers_of_mapM_capture {captures : List Capture} {cells : List CellId}
    (h : captures.mapM frame.capture = .ok cells) (hcell : cell ∈ cells) : frame.Refers cell := by
  have hmem : .ok cell ∈ captures.map frame.capture := by
    rw [map_eq_of_mapM_eq_ok h]
    exact List.mem_map_of_mem hcell
  obtain ⟨capture, -, hcapture⟩ := List.mem_map.1 hmem
  exact ⟨capture, hcapture⟩

theorem within_iff : frame.Within heap ↔ heap.HasCells frame.Refers :=
  ⟨fun h _ ⟨_, hcell⟩ => h hcell, fun h _ _ hcell => h ⟨_, hcell⟩⟩

/-- What time does to a frame: no cell is lost, upvalues stay where they are, the same locals are
kept in cells, and each of these is in the same cell as before or in a new one. -/
structure Ages (frame : Frame) (heap : Heap) (frame' : Frame) (heap' : Heap) : Prop where
  boxes : frame'.boxes = frame.boxes
  upvalues : frame'.upvalues = frame.upvalues
  cells : heap.cells.size ≤ heap'.cells.size
  shared : ∀ ⦃slot : Nat⦄ ⦃cell : CellId⦄, frame'.locals[slot]? = some (.shared cell) →
    frame.locals[slot]? = some (.shared cell) ∨
      heap.cells.size ≤ cell ∧ cell < heap'.cells.size

namespace Ages

/-- The frame stays as it is. -/
theorem of_cells {heap' : Heap} (h : heap.cells.size ≤ heap'.cells.size) :
    frame.Ages heap frame heap' :=
  ⟨rfl, rfl, h, fun _ _ hcell => .inl hcell⟩

theorem refl (frame : Frame) (heap : Heap) : frame.Ages heap frame heap :=
  of_cells (Nat.le_refl _)

theorem trans {f₁ f₂ f₃ : Frame} {h₁ h₂ h₃ : Heap} (hfirst : f₁.Ages h₁ f₂ h₂)
    (hsecond : f₂.Ages h₂ f₃ h₃) : f₁.Ages h₁ f₃ h₃ where
  boxes := hsecond.boxes.trans hfirst.boxes
  upvalues := hsecond.upvalues.trans hfirst.upvalues
  cells := Nat.le_trans hfirst.cells hsecond.cells
  shared slot cell hcell := by
    rcases hsecond.shared hcell with hcell | hnew
    · exact (hfirst.shared hcell).imp id fun hnew =>
        ⟨hnew.1, Nat.lt_of_lt_of_le hnew.2 hsecond.cells⟩
    · exact .inr ⟨Nat.le_trans hfirst.cells hnew.1, hnew.2⟩

/-- Frames refer to existing cells at all times. -/
theorem within {frame' : Frame} {heap' : Heap} (h : frame.Ages heap frame' heap')
    (hcells : frame.Within heap) : frame'.Within heap' := by
  intro capture cell hcell
  cases capture with
  | slot slot =>
    rcases h.shared (capture_slot_eq_ok_iff.1 hcell) with hold | hnew
    · exact Nat.lt_of_lt_of_le (hcells (capture_slot_eq_ok_iff.2 hold)) h.cells
    · exact hnew.2
  | upvalue index =>
    have hold : frame.capture (.upvalue index) = .ok cell := by
      rw [← hcell]
      unfold capture upvalue
      rw [h.upvalues]
    exact Nat.lt_of_lt_of_le (hcells hold) h.cells

/-- A slot whose cells are all new at one time is in a new cell at all later times. -/
theorem le_of_shared {frame' : Frame} {heap' : Heap} {old : Nat}
    (h : frame.Ages heap frame' heap') (hold : old ≤ heap.cells.size)
    (hnew : ∀ cell, frame.locals[slot]? = some (.shared cell) → old ≤ cell)
    (hcell : frame'.locals[slot]? = some (.shared cell)) : old ≤ cell := by
  rcases h.shared hcell with hsame | hlater
  · exact hnew cell hsame
  · exact Nat.le_trans hold hlater.1

end Ages

/-- A declaration makes a cell for a local that is kept in one. -/
theorem declare_of_shared (h : frame.locals[slot]? = some (.shared cell)) :
    frame.declare heap slot v =
      ({ frame with locals := frame.locals.setIfInBounds slot (.shared heap.cells.size) },
        (heap.addCell v).2) := by
  unfold declare
  rw [h]
  rfl

theorem write_of_shared (h : frame.locals[slot]? = some (.shared cell)) :
    frame.write heap slot v = (frame, heap.setCell cell v) := by
  unfold write
  rw [h]

/-- A local that is kept in a cell is found in a new one after it was declared. -/
theorem shared_declare (h : frame.locals[slot]? = some (.shared cell)) :
    (frame.declare heap slot v).1.locals[slot]? = some (.shared heap.cells.size) := by
  have hslot : slot < frame.locals.size := (Array.getElem?_eq_some_iff.1 h).1
  rw [declare_of_shared h]
  exact Array.getElem?_setIfInBounds_self_of_lt hslot

/-- A slot that was declared is in no cell that existed before. -/
theorem le_of_shared_declare
    (h : (frame.declare heap slot v).1.locals[slot]? = some (.shared cell)) :
    heap.cells.size ≤ cell := by
  obtain ⟨old, hold⟩ := (sets_declare frame heap slot v).shared cell h
  rw [shared_declare hold] at h
  cases h
  exact Nat.le_refl _

theorem ages_declare :
    frame.Ages heap (frame.declare heap slot v).1 (frame.declare heap slot v).2 := by
  have hsets := sets_declare frame heap slot v
  by_cases hkind : ∃ cell, frame.locals[slot]? = some (.shared cell)
  · obtain ⟨old, hold⟩ := hkind
    have hcells : (frame.declare heap slot v).2.cells.size = heap.cells.size + 1 := by
      rw [declare_of_shared hold, Heap.size_cells_addCell]
    refine ⟨boxes_declare .., hsets.upvalues, by omega, fun other cell hcell => ?_⟩
    by_cases heq : other = slot
    · rw [heq, shared_declare hold] at hcell
      cases hcell
      exact .inr ⟨Nat.le_refl _, Nat.lt_of_succ_le (Nat.le_of_eq hcells.symm)⟩
    · exact .inl (hsets.others other heq ▸ hcell)
  · have hheap : (frame.declare heap slot v).2 = heap := by
      unfold declare
      split
      · rfl
      · next cell hcell => exact absurd ⟨cell, hcell⟩ hkind
      · rfl
    refine ⟨boxes_declare .., hsets.upvalues, Nat.le_of_eq (by rw [hheap]),
      fun other cell hcell => .inl ?_⟩
    by_cases heq : other = slot
    · rw [heq] at hcell
      exact absurd (hsets.shared cell hcell) hkind
    · exact hsets.others other heq ▸ hcell

/-- An assignment changes no cell that a local is kept in. -/
theorem capture_write (capture : Capture) :
    (frame.write heap slot v).1.capture capture = frame.capture capture := by
  unfold write
  split
  · next old hold =>
    cases capture with
    | slot other =>
      unfold Frame.capture
      dsimp only
      by_cases heq : slot = other
      · have hslot : slot < frame.locals.size := (Array.getElem?_eq_some_iff.1 hold).1
        rw [← heq, hold, Array.getElem?_setIfInBounds_self_of_lt hslot]
      · rw [Array.getElem?_setIfInBounds_ne heq]
    | upvalue index => rfl
  · rfl
  · rfl

theorem size_cells_write : (frame.write heap slot v).2.cells.size = heap.cells.size := by
  unfold write
  split
  · rfl
  · exact Heap.size_cells_setCell ..
  · rfl

theorem ages_write : frame.Ages heap (frame.write heap slot v).1 (frame.write heap slot v).2 where
  boxes := boxes_write ..
  upvalues := (sets_write frame heap slot v).upvalues
  cells := Nat.le_of_eq size_cells_write.symm
  shared other cell hcell := by
    rw [← capture_slot_eq_ok_iff, capture_write, capture_slot_eq_ok_iff] at hcell
    exact .inl hcell

theorem size_cells_openLocals : ∀ (initial : List (Value × Bool)) (heap : Heap),
    heap.cells.size ≤ (openLocals heap initial).2.cells.size
  | [], _ => Nat.le_refl _
  | (_, false) :: rest, heap => size_cells_openLocals rest heap
  | (v, true) :: rest, heap => by
    have hrest := size_cells_openLocals rest (heap.addCell v).2
    rw [Heap.size_cells_addCell] at hrest
    exact Nat.le_of_succ_le hrest

theorem lt_of_shared_openLocals : ∀ (initial : List (Value × Bool)) (heap : Heap) {slot : Nat}
    {cell : CellId}, (openLocals heap initial).1[slot]? = some (.shared cell) →
      cell < (openLocals heap initial).2.cells.size
  | [], _, _, _, h => by cases h
  | (_, false) :: _, _, 0, _, h => by cases h
  | (_, false) :: rest, heap, _ + 1, _, h => lt_of_shared_openLocals rest heap h
  | (v, true) :: rest, heap, 0, _, h => by
    cases h
    have hrest := size_cells_openLocals rest (heap.addCell v).2
    rw [Heap.size_cells_addCell] at hrest
    exact hrest
  | (v, true) :: rest, heap, _ + 1, _, h => lt_of_shared_openLocals rest (heap.addCell v).2 h

end Frame

/-- A routine that is entered with existing upvalues has a frame that refers to existing cells. -/
theorem Specialization.within_frame (spec : Specialization) (engine : EngineId)
    {cells : List CellId} (args : List Value) {heap : Heap} (hcells : heap.HasCells (· ∈ cells)) :
    (spec.frame engine cells args heap).1.Within (spec.frame engine cells args heap).2 := by
  intro capture cell hcell
  cases capture with
  | slot slot =>
    have hshared := Frame.capture_slot_eq_ok_iff.1 hcell
    unfold Specialization.frame at hshared
    dsimp only at hshared
    rw [List.getElem?_toArray] at hshared
    exact Frame.lt_of_shared_openLocals _ heap hshared
  | upvalue index =>
    have hold : cell < heap.cells.size := by
      rw [Frame.capture, Frame.upvalue] at hcell
      split at hcell
      · next found hfound =>
        cases hcell
        exact hcells (List.mem_of_getElem? hfound)
      · cases hcell
    exact Nat.lt_of_lt_of_le hold (Frame.size_cells_openLocals _ heap)

/-! ## Machines -/

/-- The cells that a target binds. -/
def Linking.Target.Binds : Target → CellId → Prop
  | .instance _ cells, cell => cell ∈ cells
  | _, _ => False

/-- All that a machine holds on to exists: the cells of its closures, and the cells that its call
sites are linked to. -/
structure Machine.CellsExist (m : Machine) : Prop where
  closures : ∀ ⦃ref : FunctionRef⦄ ⦃c : Closure⦄, m.heap.closureOf? ref = some c →
    m.heap.HasCells (· ∈ c.cells)
  links : ∀ ⦃id : SiteId⦄ ⦃link : Linking.Link⦄, (m.sites.get id).link = some link →
    m.heap.HasCells link.target.Binds

namespace Machine.CellsExist

variable {m m' : Machine}

/-- There are no new closures and no new links. -/
theorem of_same (h : m.CellsExist) (hfunctions : m'.heap.functions = m.heap.functions)
    (hlinks : ∀ ⦃id link⦄, (m'.sites.get id).link = some link → (m.sites.get id).link = some link)
    (hcells : m.heap.cells.size ≤ m'.heap.cells.size) : m'.CellsExist where
  closures ref c hc := by
    have hold : m.heap.closureOf? ref = some c := by
      rw [← hc, Heap.closureOf?, Heap.closureOf?, Heap.function?, Heap.function?, hfunctions]
    exact (h.closures hold).mono hcells
  links _ _ hlink := (h.links (hlinks hlink)).mono hcells

theorem of_undisturbed (h : m.CellsExist) (hquiet : m.Undisturbed m') : m'.CellsExist :=
  h.of_same (congrArg Heap.functions hquiet.heap) (fun _ _ hlink => hquiet.sites.link_eq hlink)
    (Nat.le_of_eq (by rw [hquiet.heap]))

theorem closure? (h : m.CellsExist) {v : Value} {c : Closure} (hc : m.heap.closure? v = some c) :
    m.heap.HasCells (· ∈ c.cells) := by
  cases v with
  | function ref => exact h.closures hc
  | _ => cases hc

/-- A closure is made of existing cells. -/
theorem addFunction (h : m.CellsExist) (name : String) {f : FunctionObject}
    (hf : ∀ c, f = .closure c → m.heap.HasCells (· ∈ c.cells)) :
    (m.addFunction name f).2.CellsExist where
  closures ref c hc := by
    rcases Heap.closureOf?_addFunction name hc with hold | hnew
    · exact h.closures hold
    · exact hf c hnew
  links _ _ hlink := h.links hlink

/-- A link to existing cells is published. -/
theorem published (h : m.CellsExist) (engine : EngineId) (id : SiteId) (plan : Linking.Plan)
    {link : Linking.Link} (hlink : m.heap.HasCells link.target.Binds) :
    (Linking.published m engine id plan link).CellsExist := by
  obtain ⟨journal, hpublished⟩ := Linking.published_eq m engine id plan link
  rw [hpublished]
  refine ⟨h.closures, fun other link' hat => ?_⟩
  rcases Linking.Sites.link_publish_cases hat with hold | rfl
  · exact h.links hold
  · exact hlink

end Machine.CellsExist

/-! ## Computations that keep all cells -/

/-- What a computation does to cells from a machine: none is lost, however it ends; and if all cells
exist that the machine holds on to and that the computation was given (`refs`), then all cells exist
that the machine holds on to afterwards. -/
structure KeepsFrom {α : Type} (refs : CellId → Prop) (m : Machine) (x : Run α) : Prop where
  cells_le : m.heap.cells.size ≤ (x.run.run m).2.heap.cells.size
  exist : m.CellsExist → m.heap.HasCells refs → (x.run.run m).2.CellsExist

/-- The same from every machine. -/
def KeepsCells {α : Type} (refs : CellId → Prop) (x : Run α) : Prop :=
  ∀ m : Machine, KeepsFrom refs m x

namespace KeepsFrom

variable {α β : Type} {refs : CellId → Prop} {m : Machine} {x : Run α} {f : α → Run β}

theorem of_same (hfunctions : (x.run.run m).2.heap.functions = m.heap.functions)
    (hlinks : ∀ ⦃id link⦄, ((x.run.run m).2.sites.get id).link = some link →
      (m.sites.get id).link = some link)
    (hcells : m.heap.cells.size ≤ (x.run.run m).2.heap.cells.size) : KeepsFrom refs m x :=
  ⟨hcells, fun hm _ => hm.of_same hfunctions hlinks hcells⟩

theorem le (h : KeepsFrom refs m x) {r : Except Stop α} {m' : Machine}
    (hrun : x.run.run m = (r, m')) : m.heap.cells.size ≤ m'.heap.cells.size := by
  have hle := h.cells_le
  rw [hrun] at hle
  exact hle

/-- What the second computation is given exists when it starts. -/
theorem bind {refs' : α → CellId → Prop} (hx : KeepsFrom refs m x)
    (hf : ∀ ⦃a m'⦄, x.run.run m = (.ok a, m') → KeepsFrom (refs' a) m' (f a))
    (hrefs : ∀ ⦃a m'⦄, x.run.run m = (.ok a, m') → m.CellsExist → m.heap.HasCells refs →
      m'.heap.HasCells (refs' a)) : KeepsFrom refs m (x >>= f) := by
  have hrun := run_bind x f m
  obtain ⟨hle, hexist⟩ := hx
  cases h : x.run.run m with
  | mk result m' =>
    rw [h] at hrun hle hexist
    cases result with
    | error stop => exact ⟨by rw [hrun]; exact hle, by rw [hrun]; exact hexist⟩
    | ok a =>
      obtain ⟨hle', hexist'⟩ := hf h
      refine ⟨by rw [hrun]; exact Nat.le_trans hle hle', fun hm hgiven => ?_⟩
      rw [hrun]
      exact hexist' (hexist hm hgiven) (hrefs h hm hgiven)

/-- The machine sees to it that what the computation is given exists. -/
theorem of_exist {refs' : CellId → Prop} (h : KeepsFrom refs' m x)
    (hrefs : m.CellsExist → m.heap.HasCells refs → m.heap.HasCells refs') : KeepsFrom refs m x :=
  ⟨h.cells_le, fun hm hgiven => h.exist hm (hrefs hm hgiven)⟩

end KeepsFrom

namespace KeepsCells

variable {α β γ : Type} {refs : CellId → Prop}

theorem le {x : Run α} (h : KeepsCells refs x) {m m' : Machine} {r : Except Stop α}
    (hrun : x.run.run m = (r, m')) : m.heap.cells.size ≤ m'.heap.cells.size :=
  (h m).le hrun

theorem pure (a : α) : KeepsCells refs (pure a) :=
  fun _ => .of_same rfl (fun _ _ hlink => hlink) (Nat.le_refl _)

theorem throw (stop : Stop) : KeepsCells refs (throw stop : Run α) :=
  fun _ => .of_same rfl (fun _ _ hlink => hlink) (Nat.le_refl _)

theorem ofExcept (x : Except RuntimeError α) : KeepsCells refs (Run.ofExcept x) := by
  cases x with
  | error e => exact throw _
  | ok a => exact pure a

theorem bind {x : Run α} {f : α → Run β} (hx : KeepsCells refs x)
    (hf : ∀ a, KeepsCells refs (f a)) : KeepsCells refs (x >>= f) :=
  fun m => (hx m).bind (fun a m' _ => hf a m') fun _ _ hrun _ hgiven => hgiven.mono (hx.le hrun)

/-- Two computations come first. -/
theorem both {x : Run α} {y : Run γ} {f : α → γ → Run β} (hx : KeepsCells refs x)
    (hy : KeepsCells refs y) (hf : ∀ a c, KeepsCells refs (f a c)) : KeepsCells refs (do
      let a ← x
      let c ← y
      f a c) :=
  hx.bind fun a => hy.bind fun c => hf a c

/-- A computation that is given nothing. -/
theorem of_none {x : Run α} (h : KeepsCells (fun _ => False) x) : KeepsCells refs x :=
  fun m => (h m).of_exist fun _ _ _ hcell => hcell.elim

theorem exist_of_none {x : Run α} (h : KeepsCells (fun _ => False) x) {m : Machine}
    (hm : m.CellsExist) : (x.run.run m).2.CellsExist :=
  (h m).exist hm fun _ hcell => hcell.elim

/-- A look at the machine comes first, and what is seen matters. -/
theorem look {f : Machine → Run β} (h : ∀ m, KeepsFrom refs m (f m)) :
    KeepsCells refs (MonadState.get >>= f) :=
  fun m => ⟨(h m).cells_le, (h m).exist⟩

theorem get {f : Machine → Run β} (h : ∀ m, KeepsCells refs (f m)) :
    KeepsCells refs (MonadState.get >>= f) :=
  look fun m => h m m

theorem heap {f : Heap → Run β} (h : ∀ heap, KeepsCells refs (f heap)) :
    KeepsCells refs (Run.heap >>= f) :=
  get fun m => h m.heap

/-- How a computation ends is no concern of cells. -/
theorem outcome {x : Run α} (h : KeepsCells refs x) : KeepsCells refs (Run.outcome x) :=
  fun m => ⟨(h m).cells_le, (h m).exist⟩

theorem modify {f : Machine → Machine} (hheap : ∀ m, (f m).heap = m.heap)
    (hsites : ∀ m, (f m).sites = m.sites) : KeepsCells refs (modify f : Run PUnit) := by
  intro m
  refine .of_same ?_ (fun id link hlink => ?_) (Nat.le_of_eq ?_)
  · exact congrArg Heap.functions (hheap m)
  · rw [← hsites m]
    exact hlink
  · exact congrArg (fun heap => heap.cells.size) (hheap m).symm

theorem count (engine : EngineId) (f : Stats → Stats) : KeepsCells refs (Run.count engine f) :=
  modify (fun _ => rfl) fun _ => rfl

theorem note (event : Event) : KeepsCells refs (Run.note event) :=
  modify (fun _ => rfl) fun _ => rfl

/-- A change of the shared objects that makes no function. -/
theorem setHeap {f : Heap → Heap} (hfunctions : ∀ heap, (f heap).functions = heap.functions)
    (hcells : ∀ heap, heap.cells.size ≤ (f heap).cells.size) (a : α) : KeepsCells refs (do
      Run.setHeap (f (← Run.heap))
      return a) :=
  fun m => .of_same (hfunctions m.heap) (fun _ _ hlink => hlink) (hcells m.heap)

/-- A change of one table, if it can be made. -/
theorem storeHeap {f : Heap → Except RuntimeError Heap}
    (h : ∀ heap heap', f heap = .ok heap' → ∃ ref t, heap' = heap.setTable ref t) (a : α) :
    KeepsCells refs (do
      Run.setHeap (← Run.ofExcept (f (← Run.heap)))
      return a) := by
  refine look fun m => ?_
  cases hstore : f m.heap with
  | error e => exact throw _ m
  | ok heap =>
    obtain ⟨ref, t, rfl⟩ := h _ _ hstore
    exact .of_same rfl (fun _ _ hlink => hlink) (Nat.le_refl _)

theorem readLocal (frame : Frame) (slot : Nat) : KeepsCells refs (Run.readLocal frame slot) :=
  fun _ => .of_same rfl (fun _ _ hlink => hlink) (Nat.le_refl _)

theorem newTable (t : Table) : KeepsCells refs (Run.newTable t) :=
  fun _ => .of_same rfl (fun _ _ hlink => hlink) (Nat.le_refl _)

theorem shortCircuit (op : LogicalOp) (isTrue : α → Bool) (left : α) {right : Run α}
    (h : KeepsCells refs right) : KeepsCells refs (shortCircuit op isTrue left right) := by
  cases op <;> unfold AdaptiveScript.shortCircuit <;> dsimp only <;> split
  · exact h
  · exact pure _
  · exact pure _
  · exact h

end KeepsCells

/-! ## Expressions -/

/-- Calls keep all cells. -/
def Caller.KeepsCells (caller : Caller) : Prop :=
  ∀ engine site callee args,
    AdaptiveScript.KeepsCells (fun _ => False) (caller engine site callee args)

/-- A closure is a new function over the cells that it is given. -/
theorem keepsFrom_function (engine : EngineId) (proto : PrototypeRef) (cells : List CellId)
    (m : Machine) : KeepsFrom (· ∈ cells) m (do
      let (ref, m) := (← get).instantiateWith engine proto cells
      set m
      return Value.function ref) := by
  refine ⟨Nat.le_refl _, fun hm hcells => hm.addFunction proto.name ?_⟩
  rintro c ⟨⟩
  exact hcells

section Code

variable {caller : Caller} {frame : Frame}

mutual

/-- Expressions pass on nothing but cells that their frame refers to. -/
theorem keepsCells_eval (hcaller : caller.KeepsCells) : ∀ {r : Rep} (c : Code r),
    KeepsCells frame.Refers (eval caller frame c)
  | _, .nil => by
    rw [eval]
    exact .pure _
  | _, .bool b => by
    rw [eval]
    exact .pure _
  | _, .int n => by
    rw [eval]
    exact .pure _
  | _, .float x => by
    rw [eval]
    exact .pure _
  | _, .constant index => by
    rw [eval]
    exact .pure _
  | _, .slot index => by
    rw [eval]
    exact .readLocal frame index
  | _, .upvalue index => by
    rw [eval]
    exact .bind (.ofExcept _) fun _ => .heap fun _ => .pure _
  | _, .global name => by
    rw [eval]
    exact .get fun _ => .pure _
  | _, .box r c => by
    rw [eval]
    exact (keepsCells_eval hcaller c).bind fun _ => .pure _
  | _, .unbox r c => by
    rw [eval]
    exact (keepsCells_eval hcaller c).bind fun _ => .ofExcept _
  | _, .widen r c => by
    rw [eval]
    exact (keepsCells_eval hcaller c).bind fun _ => .ofExcept _
  | _, .truthy r c => by
    rw [eval]
    exact (keepsCells_eval hcaller c).bind fun _ => .pure _
  | _, .intArith op a b => by
    rw [eval]
    exact .both (keepsCells_eval hcaller a) (keepsCells_eval hcaller b) fun _ _ => .ofExcept _
  | _, .floatArith op a b => by
    rw [eval]
    exact .both (keepsCells_eval hcaller a) (keepsCells_eval hcaller b) fun _ _ => .pure _
  | _, .intCompare op a b => by
    rw [eval]
    exact .both (keepsCells_eval hcaller a) (keepsCells_eval hcaller b) fun _ _ => .pure _
  | _, .intFloatCompare op a b => by
    rw [eval]
    exact .both (keepsCells_eval hcaller a) (keepsCells_eval hcaller b) fun _ _ => .pure _
  | _, .floatIntCompare op a b => by
    rw [eval]
    exact .both (keepsCells_eval hcaller a) (keepsCells_eval hcaller b) fun _ _ => .pure _
  | _, .floatCompare op a b => by
    rw [eval]
    exact .both (keepsCells_eval hcaller a) (keepsCells_eval hcaller b) fun _ _ => .pure _
  | _, .same op a b => by
    rw [eval]
    exact .both (keepsCells_eval hcaller a) (keepsCells_eval hcaller b) fun _ _ => .pure _
  | _, .order op a b => by
    rw [eval]
    exact .both (keepsCells_eval hcaller a) (keepsCells_eval hcaller b) fun _ _ => .ofExcept _
  | _, .concat a b => by
    rw [eval]
    exact .both (keepsCells_eval hcaller a) (keepsCells_eval hcaller b) fun _ _ => .ofExcept _
  | _, .binary op a b => by
    rw [eval]
    exact .both (keepsCells_eval hcaller a) (keepsCells_eval hcaller b) fun _ _ => .ofExcept _
  | _, .boolLogical op a b => by
    rw [eval]
    exact (keepsCells_eval hcaller a).bind fun x =>
      .shortCircuit op id x (keepsCells_eval hcaller b)
  | _, .logical op a b => by
    rw [eval]
    exact (keepsCells_eval hcaller a).bind fun x =>
      .shortCircuit op Value.isTruthy x (keepsCells_eval hcaller b)
  | _, .negInt c => by
    rw [eval]
    exact (keepsCells_eval hcaller c).bind fun _ => .pure _
  | _, .negFloat c => by
    rw [eval]
    exact (keepsCells_eval hcaller c).bind fun _ => .pure _
  | _, .not c => by
    rw [eval]
    exact (keepsCells_eval hcaller c).bind fun _ => .pure _
  | _, .unary op c => by
    rw [eval]
    exact (keepsCells_eval hcaller c).bind fun _ => .heap fun _ => .ofExcept _
  | _, .field f target => by
    rw [eval]
    exact (keepsCells_eval hcaller target).bind fun _ => .heap fun _ => .ofExcept _
  | _, .index target key => by
    rw [eval]
    exact .both (keepsCells_eval hcaller target) (keepsCells_eval hcaller key) fun _ _ =>
      .heap fun _ => .ofExcept _
  | _, .first call => by
    rw [eval]
    exact (keepsCells_evalCall hcaller call).bind fun _ => .pure _
  | _, .function proto captures => by
    rw [eval]
    intro m
    refine (KeepsCells.ofExcept _ m).bind (fun cells m' _ => keepsFrom_function ..)
      fun cells m' hrun _ hgiven => ?_
    obtain ⟨hcells, rfl⟩ := eq_of_run_ofExcept hrun
    exact fun _ hcell => hgiven (Frame.refers_of_mapM_capture hcells hcell)
  | _, .table layout inits => by
    rw [eval]
    exact (keepsCells_evalInits hcaller inits 1 _).bind fun t => .newTable t

theorem keepsCells_evalCall (hcaller : caller.KeepsCells) : ∀ call : CallCode,
    KeepsCells frame.Refers (evalCall caller frame call)
  | .mk site callee args => by
    rw [evalCall]
    exact .both (keepsCells_eval hcaller callee) (keepsCells_evalAll hcaller args) fun f vs =>
      (hcaller frame.engine site f vs).of_none

theorem keepsCells_evalAll (hcaller : caller.KeepsCells) : ∀ cs : List (Code .value),
    KeepsCells frame.Refers (evalAll caller frame cs)
  | [] => by
    rw [evalAll]
    exact .pure _
  | c :: cs => by
    rw [evalAll]
    exact .both (keepsCells_eval hcaller c) (keepsCells_evalAll hcaller cs) fun _ _ => .pure _

theorem keepsCells_evalInits (hcaller : caller.KeepsCells) :
    ∀ (inits : List Init) (next : Int64) (t : Table),
      KeepsCells frame.Refers (evalInits caller frame inits next t)
  | [], next, t => by
    rw [evalInits]
    exact .pure _
  | .slot slot value :: rest, next, t => by
    rw [evalInits]
    exact (keepsCells_eval hcaller value).bind fun _ => .bind (.ofExcept _) fun _ =>
      keepsCells_evalInits hcaller rest _ _
  | .named name value :: rest, next, t => by
    rw [evalInits]
    exact (keepsCells_eval hcaller value).bind fun _ => keepsCells_evalInits hcaller rest _ _
  | .keyed key value :: rest, next, t => by
    rw [evalInits]
    exact .both (keepsCells_eval hcaller key) (keepsCells_eval hcaller value) fun _ _ =>
      .bind (.ofExcept _) fun _ => keepsCells_evalInits hcaller rest _ _
  | .positional value :: rest, next, t => by
    rw [evalInits]
    exact (keepsCells_eval hcaller value).bind fun _ => keepsCells_evalInits hcaller rest _ _

end

theorem keepsCells_evalRange (hcaller : caller.KeepsCells) (range : RangeCode) :
    KeepsCells frame.Refers (evalRange caller frame range) := by
  have heval {r : Rep} (c : Code r) : KeepsCells frame.Refers (eval caller frame c) :=
    keepsCells_eval hcaller c
  cases range with
  | int start limit step =>
    exact .both (heval start) (heval limit) fun _ _ => (heval step).bind fun _ => .pure _
  | float start limit step =>
    exact .both (heval start) (heval limit) fun _ _ => (heval step).bind fun _ => .pure _
  | dynamic start limit step =>
    exact .both (heval start) (heval limit) fun _ _ => (heval step).bind fun _ => .ofExcept _

end Code

/-! ## Statements -/

/-- What is asked of a computation of a frame: nothing is passed on but cells that the frame refers
to, and if it succeeds, the frame has aged to the one that is left behind. -/
structure Lives {α : Type} (frame : Frame) (x : Run α) (next : α → Frame) : Prop where
  keeps : KeepsCells frame.Refers x
  ages : ∀ ⦃m : Machine⦄ ⦃a : α⦄ ⦃m' : Machine⦄, x.run.run m = (.ok a, m') →
    frame.Ages m.heap (next a) m'.heap

namespace Lives

variable {α β : Type} {frame : Frame} {next : α → Frame} {next' : β → Frame}

/-- The frame is left as it is. -/
theorem of_keeps {x : Run α} (h : KeepsCells frame.Refers x)
    (hnext : Delivers x fun a => next a = frame) : Lives frame x next := by
  refine ⟨h, fun m a m' hrun => ?_⟩
  rw [hnext hrun]
  exact .of_cells (h.le hrun)

theorem pure {a : α} (h : next a = frame) : Lives frame (pure a) next :=
  of_keeps (.pure a) (.pure h)

theorem throw (stop : Stop) : Lives frame (throw stop) next :=
  of_keeps (.throw stop) .throw

theorem bind {x : Run α} {f : α → Run β} (hx : Lives frame x next)
    (hf : ∀ a, Lives (next a) (f a) next') : Lives frame (x >>= f) next' where
  keeps m := by
    refine (hx.keeps m).bind (fun a m' _ => (hf a).keeps m') fun a m' hrun _ hgiven => ?_
    exact Frame.within_iff.1 ((hx.ages hrun).within (Frame.within_iff.2 hgiven))
  ages m b m' hrun := by
    obtain ⟨a, m₁, hfirst, hrest⟩ := exists_of_run_bind hrun
    exact (hx.ages hfirst).trans ((hf a).ages hrest)

/-- A computation that leaves the frame alone comes first. -/
theorem after {x : Run α} {f : α → Run β} (hx : KeepsCells frame.Refers x)
    (hf : ∀ a, Lives frame (f a) next') : Lives frame (x >>= f) next' :=
  (of_keeps hx fun _ _ _ _ => rfl).bind hf

/-- A change of the shared objects that makes no function. -/
theorem setHeap {f : Heap → Heap} {a : α} (hfunctions : ∀ heap, (f heap).functions = heap.functions)
    (hcells : ∀ heap, heap.cells.size ≤ (f heap).cells.size) (ha : next a = frame) :
    Lives frame (do
      Run.setHeap (f (← Run.heap))
      return a) next :=
  of_keeps (.setHeap hfunctions hcells a) (.andThen fun _ => .andThen fun _ => .pure ha)

/-- A change of one table, if it can be made. -/
theorem storeHeap {f : Heap → Except RuntimeError Heap} {a : α}
    (h : ∀ heap heap', f heap = .ok heap' → ∃ ref t, heap' = heap.setTable ref t)
    (ha : next a = frame) : Lives frame (do
      Run.setHeap (← Run.ofExcept (f (← Run.heap)))
      return a) next :=
  of_keeps (.storeHeap h a)
    (.andThen fun _ => .andThen fun _ => .andThen fun _ => .pure ha)

end Lives

theorem lives_declareLocal (slot : Nat) (v : Value) (frame : Frame) :
    Lives frame (declareLocal slot v frame) id where
  keeps m := .of_same (Frame.cellsOnly_declare frame m.heap slot v).functions
    (fun _ _ hlink => hlink) Frame.ages_declare.cells
  ages := by
    rintro m _ _ ⟨⟩
    exact Frame.ages_declare

theorem lives_writeLocal (slot : Nat) (v : Value) (frame : Frame) :
    Lives frame (writeLocal slot v frame) id where
  keeps m := .of_same (Frame.cellsOnly_write frame m.heap slot v).functions
    (fun _ _ hlink => hlink) Frame.ages_write.cells
  ages := by
    rintro m _ _ ⟨⟩
    exact Frame.ages_write

/-- The frame that a turn of a loop leads to. -/
def Turn.next {σ : Type} (frame : Frame) (out : Option (σ × Frame)) : Frame :=
  (out.map Prod.snd).getD frame

theorem lives_whileTurn {cond : Frame → Run Bool}
    (hcond : ∀ frame : Frame, KeepsCells frame.Refers (cond frame)) (rounds : Nat)
    (frame : Frame) : Lives frame (whileTurn cond rounds frame) (Turn.next frame) := by
  cases rounds with
  | zero => exact .throw _
  | succ rounds =>
    refine .after (hcond frame) fun holds => .pure ?_
    cases holds <;> rfl

theorem lives_rangeTurn (slot : Nat) (s : RangeState) (frame : Frame) :
    Lives frame (RangeState.turn slot s frame) (Turn.next frame) := by
  cases s with
  | failed e => exact .throw _
  | done => exact .pure rfl
  | int step count i =>
    cases count with
    | zero => exact .pure rfl
    | succ count => exact (lives_declareLocal slot _ frame).bind fun _ => .pure rfl
  | float limit step rounds x =>
    cases rounds with
    | zero => exact .throw _
    | succ rounds =>
      rw [RangeState.turn]
      split
      · exact (lives_declareLocal slot _ frame).bind fun _ => .pure rfl
      · exact .pure rfl

section Loops

variable {body : Frame → Run (Flow × Frame)} (hbody : ∀ frame, Lives frame (body frame) Prod.snd)

theorem lives_afterRound {again : Frame → Run (Flow × Frame)}
    (hagain : ∀ frame, Lives frame (again frame) Prod.snd) (out : Flow × Frame) :
    Lives out.2 (afterRound again out) Prod.snd := by
  obtain ⟨flow, frame⟩ := out
  cases flow with
  | normal => exact hagain frame
  | leave => exact .pure rfl
  | ret values => exact .pure rfl

include hbody

theorem lives_whileLoop {cond : Frame → Run Bool}
    (hcond : ∀ frame : Frame, KeepsCells frame.Refers (cond frame)) (rounds : Nat) :
    ∀ frame, Lives frame (whileLoop cond body rounds frame) Prod.snd := by
  induction rounds with
  | zero => exact fun _ => .throw _
  | succ rounds ih =>
    intro frame
    rw [whileLoop]
    refine .after (hcond frame) fun holds => ?_
    split
    · exact (hbody frame).bind (lives_afterRound ih)
    · exact .pure rfl

theorem lives_intLoop (slot : Nat) (step : Int) (count : Nat) :
    ∀ i frame, Lives frame (intLoop slot body step count i frame) Prod.snd := by
  induction count with
  | zero => exact fun _ _ => .pure rfl
  | succ count ih =>
    intro i frame
    rw [intLoop]
    exact (lives_declareLocal slot _ frame).bind fun frame' =>
      (hbody frame').bind (lives_afterRound (ih (i + step)))

theorem lives_floatLoop (slot : Nat) (limit step : Float) (rounds : Nat) :
    ∀ x frame, Lives frame (floatLoop slot body limit step rounds x frame) Prod.snd := by
  induction rounds with
  | zero => exact fun _ _ => .throw _
  | succ rounds ih =>
    intro x frame
    rw [floatLoop]
    split
    · exact (lives_declareLocal slot _ frame).bind fun frame' =>
        (hbody frame').bind (lives_afterRound (ih (x + step)))
    · exact .pure rfl

theorem lives_rangeLoop (slot rounds : Nat) (range : Range) (frame : Frame) :
    Lives frame (rangeLoop slot body rounds range frame) Prod.snd := by
  cases range with
  | int start limit step =>
    rw [rangeLoop]
    split
    · exact .throw _
    · refine .after (.ofExcept _) fun bound => ?_
      cases bound with
      | none => exact .pure rfl
      | some bound => exact lives_intLoop hbody slot _ _ _ frame
  | float start limit step =>
    rw [rangeLoop]
    split
    · exact .throw _
    · exact lives_floatLoop hbody slot limit step rounds start frame

end Loops

section Statements

variable {caller : Caller}

mutual

/-- **The step.** A statement passes on nothing but cells that its frame refers to, and ages it. -/
theorem lives_exec (hcaller : caller.KeepsCells) (rounds : Nat) : ∀ (s : Step) (frame : Frame),
    Lives frame (exec caller rounds s frame) Prod.snd
  | .declare slot value, frame => by
    rw [exec]
    exact .after (keepsCells_eval hcaller value) fun v =>
      (lives_declareLocal slot v frame).bind fun _ => .pure rfl
  | .assign slot value, frame => by
    rw [exec]
    exact .after (keepsCells_eval hcaller value) fun v =>
      (lives_writeLocal slot v frame).bind fun _ => .pure rfl
  | .setUpvalue index value, frame => by
    rw [exec]
    exact .after (keepsCells_eval hcaller value) fun v => .after (.ofExcept _) fun cell =>
      .setHeap (fun _ => rfl) (fun heap => Nat.le_of_eq (heap.size_cells_setCell cell v).symm) rfl
  | .setGlobal name value, frame => by
    rw [exec]
    exact .after (keepsCells_eval hcaller value) fun v =>
      .after (.modify (fun _ => rfl) fun _ => rfl) fun _ => .pure rfl
  | .setField f target value, frame => by
    rw [exec]
    exact .after (keepsCells_eval hcaller target) fun t =>
      .after (keepsCells_eval hcaller value) fun v =>
        .storeHeap (fun _ _ hstore => exists_of_storeField hstore) rfl
  | .setIndex target key value, frame => by
    rw [exec]
    exact .after (keepsCells_eval hcaller target) fun t =>
      .after (keepsCells_eval hcaller key) fun k =>
        .after (keepsCells_eval hcaller value) fun v =>
          .storeHeap (fun _ _ hstore => exists_of_storeIndex hstore) rfl
  | .discard value, frame => by
    rw [exec]
    exact .after (keepsCells_eval hcaller value) fun _ => .pure rfl
  | .call call, frame => by
    rw [exec]
    exact .after (keepsCells_evalCall hcaller call) fun _ => .pure rfl
  | .branch cond thenBlock elseBlock, frame => by
    rw [exec]
    refine .after (keepsCells_eval hcaller cond) fun holds => ?_
    split
    · exact lives_execBlock hcaller rounds thenBlock frame
    · exact lives_execBlock hcaller rounds elseBlock frame
  | .whileLoop cond body, frame => by
    rw [exec]
    exact lives_whileLoop (lives_execBlock hcaller rounds body)
      (fun _ => keepsCells_eval hcaller cond) rounds frame
  | .forLoop slot range body, frame => by
    rw [exec]
    exact .after (keepsCells_evalRange hcaller range) fun r =>
      lives_rangeLoop (lives_execBlock hcaller rounds body) slot rounds r frame
  | .ret values, frame => by
    rw [exec]
    exact .after (keepsCells_evalAll hcaller values) fun _ => .pure rfl
  | .retCall call, frame => by
    rw [exec]
    exact .after (keepsCells_evalCall hcaller call) fun _ => .pure rfl
  | .breakLoop, frame => by
    rw [exec]
    exact .pure rfl

/-- **The run.** So do statements in a row. -/
theorem lives_execBlock (hcaller : caller.KeepsCells) (rounds : Nat) :
    ∀ (block : List Step) (frame : Frame),
      Lives frame (execBlock caller rounds block frame) Prod.snd
  | [], frame => by
    rw [execBlock]
    exact .pure rfl
  | s :: rest, frame => by
    rw [execBlock]
    refine (lives_exec hcaller rounds s frame).bind fun out => ?_
    obtain ⟨flow, frame'⟩ := out
    cases flow with
    | normal => exact lives_execBlock hcaller rounds rest frame'
    | leave => exact .pure rfl
    | ret values => exact .pure rfl

end

end Statements

/-! ## Time -/

/-- What time does to a frame and a machine: the frame ages, and if the cells exist that the two
refer to, then they exist at all times. -/
structure Later (c d : Frame × Machine) : Prop where
  ages : c.1.Ages c.2.heap d.1 d.2.heap
  exist : c.1.Within c.2.heap → c.2.CellsExist → d.2.CellsExist

namespace Later

theorem refl (c : Frame × Machine) : Later c c :=
  ⟨.refl .., fun _ hm => hm⟩

theorem trans {c d e : Frame × Machine} (hcd : Later c d) (hde : Later d e) : Later c e where
  ages := hcd.ages.trans hde.ages
  exist hcells hm := hde.exist (hcd.ages.within hcells) (hcd.exist hcells hm)

end Later

section Time

variable {α : Type} {frame : Frame} {x : Run α} {m m' : Machine} {a : α}

theorem Lives.later {next : α → Frame} (h : Lives frame x next)
    (hrun : x.run.run m = (.ok a, m')) : Later (frame, m) (next a, m') := by
  refine ⟨h.ages hrun, fun hcells hm => ?_⟩
  have hexist := (h.keeps m).exist hm (Frame.within_iff.1 hcells)
  rw [hrun] at hexist
  exact hexist

theorem KeepsCells.later (h : KeepsCells frame.Refers x) (hrun : x.run.run m = (.ok a, m')) :
    Later (frame, m) (frame, m') :=
  (Lives.of_keeps h fun _ _ _ _ => rfl).later hrun

end Time

end AdaptiveScript
