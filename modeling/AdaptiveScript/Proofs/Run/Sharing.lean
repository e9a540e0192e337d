import AdaptiveScript.Proofs.Run.CallCells

/-!
# Which closures share a variable

A closure holds the cells of the variables that it captured, so closures share a variable if they
hold the same cell.  This module shows that they do so exactly if the variable comes from the same
declaration.

First for a frame by itself: its slots are declared, written, read and captured, while cells are
written and made from elsewhere, in any order (`FrameOperation`).  Two captures of a slot give one
cell exactly if the slot was not declared in between (`FrameOperation.capture_after_eq_iff`), the
slot reads as what was last written to its variable (`FrameOperation.read_after`), and once it is
declared anew, assignments to it reach no cell that was captured before.

Then for the rounds of a numeric loop, in a whole run with all that its body calls.  The frames in
which the statements of a round start (`Step.Visits`) lie, in time, between the beginning of the
round and its end, and so the cells of their loop variable are older than those of all later rounds
(`LoopRounds.pairwise_lt`).

Both rest on a frame that refers to existing cells only, as the frames of all runs do
(`Deed.within_of_visits`).
-/

namespace AdaptiveScript

/-! ## Histories of a frame -/

namespace Frame

variable {frame : Frame} {heap : Heap} {slot : Nat} {v : Value} {cell : CellId}

/-- An assignment to a slot reaches no cell but that of the slot. -/
theorem cell_write_of_ne (h : frame.capture (.slot slot) ≠ .ok cell) :
    (frame.write heap slot v).2.cell cell = heap.cell cell := by
  unfold write
  split
  · rfl
  · next other hother =>
    refine Heap.cell_setCell_of_ne ?_ v
    rintro rfl
    exact h (capture_slot_eq_ok_iff.2 hother)
  · rfl

theorem cell_write_self (h : frame.capture (.slot slot) = .ok cell)
    (hcell : cell < heap.cells.size) : (frame.write heap slot v).2.cell cell = v := by
  rw [write_of_shared (capture_slot_eq_ok_iff.1 h)]
  exact Heap.cell_setCell_self hcell v

/-- A declaration leaves the contents of all cells alone. -/
theorem cell_declare (hcell : cell < heap.cells.size) :
    (frame.declare heap slot v).2.cell cell = heap.cell cell := by
  unfold declare
  split
  · rfl
  · exact Heap.cell_addCell_of_lt hcell v
  · rfl

theorem read_of_capture (h : frame.capture (.slot slot) = .ok cell) :
    frame.read heap slot = heap.cell cell := by
  unfold read
  rw [capture_slot_eq_ok_iff.1 h]

theorem capture_declare_of_ne {other : Nat} (h : other ≠ slot) :
    (frame.declare heap slot v).1.capture (.slot other) = frame.capture (.slot other) := by
  rw [capture, capture, (sets_declare frame heap slot v).others other h]

/-- The cell that a slot is kept in. -/
def cell? (frame : Frame) (slot : Nat) : Option CellId :=
  (frame.capture (.slot slot)).toOption

theorem cell?_eq_some_iff :
    frame.cell? slot = some cell ↔ frame.capture (.slot slot) = .ok cell := by
  unfold cell?
  cases frame.capture (.slot slot) with
  | error e => exact ⟨fun h => (by cases h), fun h => (by cases h)⟩
  | ok found => exact ⟨fun h => (by cases h; rfl), fun h => (by cases h; rfl)⟩

end Frame

/-- What can happen to the locals of a frame and to cells. -/
inductive FrameOperation where
  /-- A new variable starts in a slot. -/
  | declare (slot : Nat) (v : Value)
  /-- A slot is assigned to. -/
  | write (slot : Nat) (v : Value)
  | read (slot : Nat)
  /-- A literal closes over a slot. -/
  | capture (slot : Nat)
  /-- A cell is written, by a closure that captured it or by any other code. -/
  | setCell (cell : CellId) (v : Value)
  /-- Other code makes a cell. -/
  | addCell (v : Value)

namespace FrameOperation

/-- The frame and the shared objects after an operation. -/
def perform (c : Frame × Heap) : FrameOperation → Frame × Heap
  | .declare slot v => c.1.declare c.2 slot v
  | .write slot v => c.1.write c.2 slot v
  | .read _ => c
  | .capture _ => c
  | .setCell cell v => (c.1, c.2.setCell cell v)
  | .addCell v => (c.1, (c.2.addCell v).2)

/-- The frame and the shared objects after some operations. -/
def after (c : Frame × Heap) (ops : List FrameOperation) : Frame × Heap :=
  ops.foldl perform c

/-- What an operation writes to the variable in a slot that is kept in a cell: the slot is
declared, it or another slot in the same cell is assigned to, or the cell is written from
elsewhere. -/
def written (slot : Nat) (c : Frame × Heap) : FrameOperation → Option Value
  | .declare other v => if other = slot then some v else none
  | .write other v => if c.1.cell? other = c.1.cell? slot then some v else none
  | .setCell cell v => if c.1.cell? slot = some cell then some v else none
  | _ => none

/-- What was last written to the variable in a slot. -/
def lastWritten (slot : Nat) : Frame × Heap → List FrameOperation → Option Value
  | _, [] => none
  | c, op :: ops => (lastWritten slot (op.perform c) ops).or (op.written slot c)

variable {c : Frame × Heap} {slot : Nat} {cell : CellId}

/-! ### One operation -/

theorem ages_perform (c : Frame × Heap) (op : FrameOperation) :
    c.1.Ages c.2 (op.perform c).1 (op.perform c).2 := by
  cases op with
  | declare slot v => exact Frame.ages_declare
  | write slot v => exact Frame.ages_write
  | read slot => exact .refl ..
  | capture slot => exact .refl ..
  | setCell cell v => exact .of_cells (Nat.le_of_eq (c.2.size_cells_setCell cell v).symm)
  | addCell v =>
    refine .of_cells (Nat.le_of_lt ?_)
    exact Nat.lt_of_succ_le (Nat.le_of_eq (c.2.size_cells_addCell v).symm)

/-- Only a declaration moves a slot to another cell. -/
theorem capture_perform {op : FrameOperation} (h : ∀ v, op ≠ .declare slot v) :
    (op.perform c).1.capture (.slot slot) = c.1.capture (.slot slot) := by
  cases op with
  | declare other v =>
    refine Frame.capture_declare_of_ne ?_
    rintro rfl
    exact h v rfl
  | write other v => exact Frame.capture_write _
  | _ => rfl

/-- A slot that is kept in a cell reads as what an operation writes to its variable, and if it
writes nothing, as before. -/
theorem read_perform (hcells : c.1.Within c.2) (hslot : c.1.capture (.slot slot) = .ok cell)
    (op : FrameOperation) : (op.perform c).1.read (op.perform c).2 slot =
      (op.written slot c).getD (c.1.read c.2 slot) := by
  have hcell : cell < c.2.cells.size := hcells hslot
  rw [Frame.read_of_capture hslot]
  by_cases hdeclare : ∃ v, op = .declare slot v
  · obtain ⟨v, rfl⟩ := hdeclare
    have hlt : slot < c.1.locals.size :=
      (Array.getElem?_eq_some_iff.1 (Frame.capture_slot_eq_ok_iff.1 hslot)).1
    rw [written, if_pos rfl]
    exact Frame.read_declare_self hlt c.2 v
  · have hkeeps : (op.perform c).1.capture (.slot slot) = .ok cell :=
      (capture_perform fun v heq => hdeclare ⟨v, heq⟩).trans hslot
    rw [Frame.read_of_capture hkeeps]
    cases op with
    | declare other v =>
      have hne : other ≠ slot := by
        rintro rfl
        exact hdeclare ⟨v, rfl⟩
      rw [written, if_neg hne]
      exact Frame.cell_declare hcell
    | write other v =>
      rw [written, Frame.cell?_eq_some_iff.2 hslot]
      split
      · next heq => exact Frame.cell_write_self (Frame.cell?_eq_some_iff.1 heq) hcell
      · next hne => exact Frame.cell_write_of_ne fun heq => hne (Frame.cell?_eq_some_iff.2 heq)
    | read other => rfl
    | capture other => rfl
    | setCell other v =>
      rw [written, Frame.cell?_eq_some_iff.2 hslot]
      split
      · next heq =>
        cases heq
        exact Heap.cell_setCell_self hcell v
      · next hne =>
        refine Heap.cell_setCell_of_ne ?_ v
        rintro rfl
        exact hne rfl
    | addCell v => exact Heap.cell_addCell_of_lt hcell v

/-! ### Many operations -/

theorem after_append (c : Frame × Heap) (before between : List FrameOperation) :
    after c (before ++ between) = after (after c before) between :=
  List.foldl_append

theorem ages_after (ops : List FrameOperation) :
    ∀ c : Frame × Heap, c.1.Ages c.2 (after c ops).1 (after c ops).2 := by
  induction ops with
  | nil => exact fun c => .refl ..
  | cons op ops ih => exact fun c => (ages_perform c op).trans (ih (op.perform c))

theorem exists_capture_after (hslot : c.1.boxes[slot]? = some true) (ops : List FrameOperation) :
    ∃ cell, (after c ops).1.capture (.slot slot) = .ok cell :=
  Frame.exists_capture_of_boxes ((ages_after ops c).boxes ▸ hslot)

/-- Without a declaration a slot stays in its cell. -/
theorem capture_after_of_not_mem {ops : List FrameOperation} :
    ∀ {c : Frame × Heap}, (∀ v, .declare slot v ∉ ops) →
      (after c ops).1.capture (.slot slot) = c.1.capture (.slot slot) := by
  induction ops with
  | nil => exact fun _ => rfl
  | cons op ops ih =>
    intro c h
    calc (after c (op :: ops)).1.capture (.slot slot)
        = (op.perform c).1.capture (.slot slot) := ih fun v hmem => h v (.tail _ hmem)
      _ = c.1.capture (.slot slot) := capture_perform fun v heq => h v (heq ▸ .head _)

/-- After a declaration a slot is in no cell that existed before. -/
theorem le_of_capture_after {v : Value} {ops : List FrameOperation} :
    ∀ {c : Frame × Heap}, .declare slot v ∈ ops →
      (after c ops).1.capture (.slot slot) = .ok cell → c.2.cells.size ≤ cell := by
  induction ops with
  | nil =>
    intro c hmem
    cases hmem
  | cons op ops ih =>
    intro c hmem hcell
    have hages := ages_perform c op
    rcases List.mem_cons.1 hmem with rfl | hmem
    · exact (ages_after ops _).le_of_shared hages.cells (fun _ => Frame.le_of_shared_declare)
        (Frame.capture_slot_eq_ok_iff.1 hcell)
    · exact Nat.le_trans hages.cells (ih hmem hcell)

/-- Two captures of a slot give the same cell exactly if the slot was not declared in between. -/
theorem capture_after_eq_iff {cell' : CellId} {between : List FrameOperation}
    (hcells : c.1.Within c.2) (hfirst : c.1.capture (.slot slot) = .ok cell)
    (hsecond : (after c between).1.capture (.slot slot) = .ok cell') :
    cell = cell' ↔ ∀ v, .declare slot v ∉ between := by
  constructor
  · rintro rfl v hmem
    exact Nat.not_lt_of_le (le_of_capture_after hmem hsecond) (hcells hfirst)
  · intro hnone
    rw [capture_after_of_not_mem hnone, hfirst] at hsecond
    exact Except.ok.inj hsecond

/-- A slot that is kept in a cell reads as what was last written to its variable. -/
theorem read_after (ops : List FrameOperation) : ∀ {c : Frame × Heap}, c.1.Within c.2 →
    c.1.boxes[slot]? = some true → (after c ops).1.read (after c ops).2 slot =
      (lastWritten slot c ops).getD (c.1.read c.2 slot) := by
  induction ops with
  | nil => exact fun _ _ => rfl
  | cons op ops ih =>
    intro c hcells hslot
    have hages := ages_perform c op
    obtain ⟨cell, hcell⟩ := Frame.exists_capture_of_boxes hslot
    rw [lastWritten, Option.getD_or, ← read_perform hcells hcell op]
    exact ih (hages.within hcells) (hages.boxes ▸ hslot)

/-- After a slot was declared, assignments to it reach no cell that existed before. -/
theorem cell_write_after {v : Value} {ops : List FrameOperation} (hmem : .declare slot v ∈ ops)
    (hcell : cell < c.2.cells.size) (w : Value) :
    ((after c ops).1.write (after c ops).2 slot w).2.cell cell = (after c ops).2.cell cell := by
  refine Frame.cell_write_of_ne fun hcapture => ?_
  exact Nat.not_lt_of_le (le_of_capture_after hmem hcapture) hcell

end FrameOperation

/-! ## Closures -/

theorem exists_of_mapM_eq_ok {ε α β : Type} {f : α → Except ε β} {xs : List α} {ys : List β}
    (h : xs.mapM f = .ok ys) {i : Nat} {x : α} (hx : xs[i]? = some x) :
    ∃ y, f x = .ok y ∧ ys[i]? = some y := by
  have hat := congrArg (·[i]?) (map_eq_of_mapM_eq_ok h)
  simp only [List.getElem?_map, hx, Option.map_some] at hat
  obtain ⟨y, hy, heq⟩ := Option.map_eq_some_iff.1 hat.symm
  exact ⟨y, heq.symm, hy⟩

namespace Frame

/-- A literal that runs in a frame makes a closure. -/
def Makes (frame : Frame) (captures : List Capture) (closure : Closure) : Prop :=
  ∃ caller proto m ref m',
    (eval caller frame (.function proto captures)).run.run m = (.ok (.function ref), m') ∧
      m'.heap.closureOf? ref = some closure

/-- A slot is kept in a cell, and this is the cell that literals running in the frame close over
when they capture the slot. -/
structure Shares (frame : Frame) (slot : Nat) (cell : CellId) : Prop where
  capture : frame.capture (.slot slot) = .ok cell
  closures : ∀ ⦃captures closure⦄ ⦃i : Nat⦄, frame.Makes captures closure →
    captures[i]? = some (.slot slot) → closure.cells[i]? = some cell

/-- The closure that a literal makes has the captured cells. -/
theorem mapM_of_makes {frame : Frame} {captures : List Capture} {closure : Closure}
    (h : frame.Makes captures closure) : captures.mapM frame.capture = .ok closure.cells := by
  obtain ⟨caller, proto, m, ref, m', hrun, hclosure⟩ := h
  rw [eval] at hrun
  obtain ⟨cells, m₁, hcells, hmake⟩ := exists_of_run_bind hrun
  obtain ⟨hmap, rfl⟩ := eq_of_run_ofExcept hcells
  cases hmake
  have hsame := (m.heap.function?_addFunction proto.name
    (.closure ⟨proto, cells, frame.engine⟩)).symm.trans (Heap.closureOf?_eq_some.1 hclosure)
  cases hsame
  exact hmap

theorem shares_of_capture {frame : Frame} {slot : Nat} {cell : CellId}
    (h : frame.capture (.slot slot) = .ok cell) : frame.Shares slot cell where
  capture := h
  closures := by
    intro captures closure i hmakes hi
    obtain ⟨found, hfound, hcells⟩ := exists_of_mapM_eq_ok (mapM_of_makes hmakes) hi
    rw [h] at hfound
    cases hfound
    exact hcells

/-- Two frames keep different variables in a slot: closures made in one frame and in the other
hold different cells, and an assignment in one frame leaves the variable of the other alone. -/
def Apart (f : Frame) (slot : Nat) (g : Frame) : Prop :=
  ∃ cell cell', f.Shares slot cell ∧ g.Shares slot cell' ∧ cell ≠ cell' ∧
    ∀ (heap : Heap) (w : Value), (g.write heap slot w).2.cell cell = heap.cell cell ∧
      (f.write heap slot w).2.cell cell' = heap.cell cell'

theorem apart_of_capture {slot : Nat} {f g : Frame} {cell cell' : CellId}
    (hf : f.capture (.slot slot) = .ok cell) (hg : g.capture (.slot slot) = .ok cell')
    (hne : cell ≠ cell') : f.Apart slot g := by
  refine ⟨cell, cell', shares_of_capture hf, shares_of_capture hg, hne, fun heap w => ⟨?_, ?_⟩⟩
  · exact cell_write_of_ne fun heq => hne (Except.ok.inj (heq.symm.trans hg))
  · exact cell_write_of_ne fun heq => hne (Except.ok.inj (hf.symm.trans heq))

end Frame

/-! ## Rounds of loops -/

/-- How the calls of running code are answered. -/
def answering (depth : Nat) : Caller :=
  fun engine site callee args => answer depth (.site engine site callee args)

theorem keepsCells_answering (depth : Nat) : (answering depth).KeepsCells :=
  fun _ _ _ _ => keepsCells_answer depth _

/-- The frames, each with its machine, in which the statements of a block start when the block runs
from a frame in a machine.  The statements of nested blocks are among them, for each round of the
loops that they are in. -/
inductive Step.Visits (caller : Caller) (rounds : Nat) :
    List Step → Frame × Machine → Frame × Machine → Prop
  | here {block : List Step} {c : Frame × Machine} : Step.Visits caller rounds block c c
  | next {s : Step} {rest : List Step} {c d e : Frame × Machine} :
    (exec caller rounds s c.1).run.run c.2 = (.ok (.normal, d.1), d.2) →
    Step.Visits caller rounds rest d e → Step.Visits caller rounds (s :: rest) c e
  | branch {cond : Code .bool} {thenBlock elseBlock rest : List Step} {c e : Frame × Machine}
    {holds : Bool} {m : Machine} : (eval caller c.1 cond).run.run c.2 = (.ok holds, m) →
    Step.Visits caller rounds (if holds then thenBlock else elseBlock) (c.1, m) e →
    Step.Visits caller rounds (.branch cond thenBlock elseBlock :: rest) c e
  | whileLoop {cond : Code .bool} {body rest : List Step} {c d e : Frame × Machine}
    {starts : List (Frame × Machine)} :
    LoopRounds (whileTurn fun f => eval caller f cond) (fun f => execBlock caller rounds body f)
      rounds c starts ((exec caller rounds (.whileLoop cond body) c.1).run.run c.2) →
    d ∈ starts → Step.Visits caller rounds body d e →
    Step.Visits caller rounds (.whileLoop cond body :: rest) c e
  | forLoop {slot : Nat} {range : RangeCode} {body rest : List Step} {c d e : Frame × Machine}
    {r : Range} {m : Machine} {starts : List (Frame × Machine)} :
    (evalRange caller c.1 range).run.run c.2 = (.ok r, m) →
    LoopRounds (RangeState.turn slot) (fun f => execBlock caller rounds body f) (r.state rounds)
      (c.1, m) starts ((exec caller rounds (.forLoop slot range body) c.1).run.run c.2) →
    d ∈ starts → Step.Visits caller rounds body d e →
    Step.Visits caller rounds (.forLoop slot range body :: rest) c e

namespace LoopRounds

variable {σ : Type} {turn : Turn σ} {body : Frame → Run (Flow × Frame)} {s : σ}
  {c d e : Frame × Machine} {starts : List (Frame × Machine)}
  {r : Except Stop (Flow × Frame) × Machine}
  (hturn : ∀ s frame, Lives frame (turn s frame) (Turn.next frame))
  (hbody : ∀ frame, Lives frame (body frame) Prod.snd)
include hturn hbody

/-- **The loop.** A loop ends after it started. -/
theorem later (h : LoopRounds turn body s c starts r) :
    ∀ ⦃out : Flow × Frame⦄ ⦃m : Machine⦄, r = (.ok out, m) → Later c (out.2, m) := by
  induction h with
  | finished hfinish =>
    rintro _ _ ⟨⟩
    exact (hturn _ _).later hfinish
  | stopped =>
    rintro _ _ ⟨⟩
  | next hbegins hround hrest ih =>
    intro out m hr
    exact (((hturn _ _).later hbegins).trans ((hbody _).later hround)).trans (ih hr)
  | last hbegins hround _ =>
    intro out m hr
    obtain ⟨hlast, rfl⟩ := Prod.mk.inj hr
    obtain ⟨flow, rfl⟩ := exists_of_afterLast hlast
    have hlater := (hbody _).later hround
    exact ((hturn _ _).later hbegins).trans hlater

/-- A round starts after the loop did. -/
theorem later_start (h : LoopRounds turn body s c starts r) : ∀ d ∈ starts, Later c d := by
  induction h with
  | finished => exact fun _ hd => (by cases hd)
  | stopped => exact fun _ hd => (by cases hd)
  | next hbegins hround hrest ih =>
    intro d hd
    rcases List.mem_cons.1 hd with rfl | hd
    · exact (hturn _ _).later hbegins
    · exact (((hturn _ _).later hbegins).trans ((hbody _).later hround)).trans (ih d hd)
  | last hbegins hround _ =>
    intro d hd
    cases List.mem_singleton.1 hd
    exact (hturn _ _).later hbegins

/-- What comes before the end of a round comes before the end of the loop. -/
theorem later_end (h : LoopRounds turn body s c starts r) (hd : d ∈ starts)
    (hend : ∀ ⦃out m⦄, (body d.1).run.run d.2 = (.ok out, m) → Later e (out.2, m)) :
    ∀ ⦃out : Flow × Frame⦄ ⦃m : Machine⦄, r = (.ok out, m) → Later e (out.2, m) := by
  induction h with
  | finished => cases hd
  | stopped => cases hd
  | next hbegins hround hrest ih =>
    intro out m hr
    rcases List.mem_cons.1 hd with rfl | hd
    · exact (hend hround).trans (hrest.later hturn hbody hr)
    · exact ih hd hr
  | last hbegins hround _ =>
    intro out m hr
    cases List.mem_singleton.1 hd
    obtain ⟨hlast, rfl⟩ := Prod.mk.inj hr
    obtain ⟨flow, rfl⟩ := exists_of_afterLast hlast
    have hlater := hend hround
    exact hlater

end LoopRounds

/-- If a block succeeds, so does its first statement, and the block ends after it. -/
theorem exists_of_execBlock_cons {caller : Caller} (hcaller : caller.KeepsCells) {rounds : Nat}
    {s : Step} {rest : List Step} {frame : Frame} {m m' : Machine} {out : Flow × Frame}
    (h : (execBlock caller rounds (s :: rest) frame).run.run m = (.ok out, m')) :
    ∃ out₁ m₁, (exec caller rounds s frame).run.run m = (.ok out₁, m₁) ∧
      Later (out₁.2, m₁) (out.2, m') := by
  rw [execBlock] at h
  obtain ⟨out₁, m₁, hfirst, hrest⟩ := exists_of_run_bind h
  refine ⟨out₁, m₁, hfirst, ?_⟩
  obtain ⟨flow, frame₁⟩ := out₁
  cases flow with
  | normal => exact (lives_execBlock hcaller rounds rest frame₁).later hrest
  | leave =>
    cases hrest
    exact .refl _
  | ret values =>
    cases hrest
    exact .refl _

namespace Step.Visits

variable {caller : Caller} (hcaller : caller.KeepsCells) {rounds : Nat} {block : List Step}
  {c e : Frame × Machine}
include hcaller

/-- What is visited comes after the start of the block. -/
theorem later (h : Visits caller rounds block c e) : Later c e := by
  induction h with
  | here => exact .refl _
  | next hfirst _ ih =>
    have hlater := (lives_exec hcaller rounds _ _).later hfirst
    exact hlater.trans ih
  | branch hcond _ ih => exact ((keepsCells_eval hcaller _).later hcond).trans ih
  | whileLoop hloop hd _ ih =>
    have hbody := lives_execBlock hcaller rounds
    have hstart := hloop.later_start (lives_whileTurn fun _ => keepsCells_eval hcaller _)
      (hbody _) _ hd
    exact hstart.trans ih
  | forLoop hrange hloop hd _ ih =>
    have hstart := hloop.later_start (lives_rangeTurn _) (lives_execBlock hcaller rounds _) _ hd
    exact (((keepsCells_evalRange hcaller _).later hrange).trans hstart).trans ih

/-- What is visited comes before the end of the block. -/
theorem later_end (h : Visits caller rounds block c e) :
    ∀ ⦃out : Flow × Frame⦄ ⦃m : Machine⦄,
      (execBlock caller rounds block c.1).run.run c.2 = (.ok out, m) → Later e (out.2, m) := by
  induction h with
  | here => exact fun out m hrun => (lives_execBlock hcaller rounds _ _).later hrun
  | next hfirst _ ih =>
    intro out m hrun
    rw [execBlock, run_bind, hfirst] at hrun
    exact ih hrun
  | @branch _ _ _ _ _ _ holds _ hcond _ ih =>
    intro out m hrun
    obtain ⟨out₁, m₁, hstep, hrest⟩ := exists_of_execBlock_cons hcaller hrun
    rw [exec, run_bind, hcond] at hstep
    cases holds with
    | true => exact (ih hstep).trans hrest
    | false => exact (ih hstep).trans hrest
  | whileLoop hloop hd _ ih =>
    intro out m hrun
    obtain ⟨out₁, m₁, hstep, hrest⟩ := exists_of_execBlock_cons hcaller hrun
    have hbody := lives_execBlock hcaller rounds
    have hend := hloop.later_end (lives_whileTurn fun _ => keepsCells_eval hcaller _)
      (hbody _) hd ih hstep
    exact hend.trans hrest
  | forLoop _ hloop hd _ ih =>
    intro out m hrun
    obtain ⟨out₁, m₁, hstep, hrest⟩ := exists_of_execBlock_cons hcaller hrun
    have hbody := lives_execBlock hcaller rounds
    exact (hloop.later_end (lives_rangeTurn _) (hbody _) hd ih hstep).trans hrest

end Step.Visits

/-! ## The frames of a routine -/

/-- The frame and the machine in which the body of a routine starts. -/
def Specialization.opening (spec : Specialization) (engine : EngineId) (cells : List CellId)
    (args : List Value) (m : Machine) : Frame × Machine :=
  let (frame, heap) := spec.frame engine cells args m.heap
  (frame, m.setHeap heap)

/-- Every frame that a routine passes through refers to existing cells, and every machine holds on
to existing cells, so that the same is true of the routines that are called on the way. -/
theorem Specialization.within_of_visits (spec : Specialization) {m : Machine} (h : m.CellsExist)
    {cells : List CellId} (hcells : m.heap.HasCells (· ∈ cells)) {engine : EngineId}
    {args : List Value} {depth rounds : Nat} {c : Frame × Machine}
    (hvisits : Step.Visits (answering depth) rounds spec.body
      (spec.opening engine cells args m) c) :
    c.1.Within c.2.heap ∧ c.2.CellsExist := by
  have hwithin := spec.within_frame engine args hcells
  have hopening : (spec.opening engine cells args m).2.CellsExist :=
    h.of_same (Frame.cellsOnly_openLocals _ m.heap).functions (fun _ _ hlink => hlink)
      (Frame.size_cells_openLocals _ m.heap)
  have hlater := hvisits.later (keepsCells_answering depth)
  exact ⟨hlater.ages.within hwithin, hlater.exist hwithin hopening⟩

/-- Whatever a host did before, the frames of the closures that it calls refer to existing cells. -/
theorem Deed.within_of_visits {deeds : List Deed} (hdeeds : AllHaveCells .empty deeds)
    {callee : Value} {closure : Closure}
    (hclosure : (run .empty deeds).heap.closure? callee = some closure) (spec : Specialization)
    {engine : EngineId} {args : List Value} {depth rounds : Nat} {c : Frame × Machine}
    (hvisits : Step.Visits (answering depth) rounds spec.body
      (spec.opening engine closure.cells args (run .empty deeds)) c) :
    c.1.Within c.2.heap ∧ c.2.CellsExist := by
  have hexist := cellsExist_run hdeeds Machine.cellsExist_empty
  exact spec.within_of_visits hexist (hexist.closure? hclosure) hvisits

/-! ## The variable of a round -/

namespace LoopRounds

variable {slot : Nat} {body : Frame → Run (Flow × Frame)} {s : RangeState} {c : Frame × Machine}
  {starts : List (Frame × Machine)} {r : Except Stop (Flow × Frame) × Machine}

/-- A round begins with its variable in no cell that existed before. -/
theorem le_of_turn {s' : RangeState} {d : Frame × Machine}
    (h : (RangeState.turn slot s c.1).run.run c.2 = (.ok (some (s', d.1)), d.2)) {cell : CellId}
    (hcell : d.1.locals[slot]? = some (.shared cell)) : c.2.heap.cells.size ≤ cell := by
  obtain ⟨-, v, hd⟩ := RangeState.exists_of_turn h
  obtain ⟨frame, m⟩ := d
  cases hd
  exact Frame.le_of_shared_declare hcell

/-- All rounds begin with their variable in no cell that existed when the loop began. -/
theorem le_of_shared (hbody : ∀ frame, Lives frame (body frame) Prod.snd)
    (h : LoopRounds (RangeState.turn slot) body s c starts r) :
    ∀ d ∈ starts, ∀ cell, d.1.locals[slot]? = some (.shared cell) →
      c.2.heap.cells.size ≤ cell := by
  induction h with
  | finished => exact fun _ hd => (by cases hd)
  | stopped => exact fun _ hd => (by cases hd)
  | next hbegins hround hrest ih =>
    intro d hd cell hcell
    rcases List.mem_cons.1 hd with rfl | hd
    · exact le_of_turn hbegins hcell
    · have hlater := ((lives_rangeTurn slot _ _).later hbegins).trans ((hbody _).later hround)
      exact Nat.le_trans hlater.ages.cells (ih d hd cell hcell)
  | last hbegins hround _ =>
    intro d hd cell hcell
    cases List.mem_singleton.1 hd
    exact le_of_turn hbegins hcell

/-- **Rounds apart.** Wherever two rounds of a numeric loop capture the loop variable, the earlier
round captures an older cell. -/
theorem pairwise_lt {caller : Caller} (hcaller : caller.KeepsCells) {rounds : Nat}
    {block : List Step} (hcells : c.1.Within c.2.heap)
    (h : LoopRounds (RangeState.turn slot) (fun f => execBlock caller rounds block f) s c starts
      r) :
    starts.Pairwise fun c d => ∀ f g, Step.Visits caller rounds block c f →
      Step.Visits caller rounds block d g → ∀ cell cell', f.1.capture (.slot slot) = .ok cell →
        g.1.capture (.slot slot) = .ok cell' → cell < cell' := by
  have hbody := lives_execBlock hcaller rounds block
  induction h with
  | finished => exact .nil
  | stopped => exact .nil
  | @next _ _ c d frame m starts r hbegins hround hrest ih =>
    have hstart : d.1.Within d.2.heap :=
      ((lives_rangeTurn slot _ _).later hbegins).ages.within hcells
    refine .cons (fun d' hd' f g hf hg cell cell' hcell hcell' => ?_)
      (ih (((hbody _).ages hround).within hstart))
    -- the end of the round lies between the two captures
    calc cell
        < f.2.heap.cells.size := (hf.later hcaller).ages.within hstart hcell
      _ ≤ m.heap.cells.size := (hf.later_end hcaller hround).ages.cells
      _ ≤ cell' := (hg.later hcaller).ages.le_of_shared
          (hrest.later_start (lives_rangeTurn slot) hbody d' hd').ages.cells
          (hrest.le_of_shared hbody d' hd') (Frame.capture_slot_eq_ok_iff.1 hcell')
  | last => exact List.pairwise_singleton _ _

end LoopRounds

/-! ## Sharing -/

open FrameOperation in
/-- What becomes of the variable in a slot of a frame, whatever happens to the frame and to the
cells. -/
structure Frame.SharesByDeclaration (frame : Frame) (m : Machine) (slot : Nat) : Prop where
  /-- Two captures of the slot give the same cell, and closures hold it, exactly if the slot was
  not declared in between. -/
  captures : ∀ before between : List FrameOperation, ∃ cell cell',
    (after (frame, m.heap) before).1.Shares slot cell ∧
      (after (frame, m.heap) (before ++ between)).1.Shares slot cell' ∧
      (cell = cell' ↔ ∀ v, .declare slot v ∉ between)
  /-- The slot reads as what was last written to it, by the frame or through its current cell. -/
  reads : ∀ ops : List FrameOperation,
    (after (frame, m.heap) ops).1.read (after (frame, m.heap) ops).2 slot =
      (lastWritten slot (frame, m.heap) ops).getD (frame.read m.heap slot)
  /-- Once the slot was declared, assignments to it change no cell that was captured before. -/
  writes : ∀ (earlier later between : List FrameOperation) (v w : Value) (x : Capture)
    (cell : CellId), (after (frame, m.heap) earlier).1.capture x = .ok cell →
    let c := after (frame, m.heap) (earlier ++ later ++ .declare slot v :: between)
    (c.1.write c.2 slot w).2.cell cell = c.2.cell cell
  /-- A numeric loop over the slot has its rounds.  Closures made in different rounds hold
  different cells of the loop variable, so that no round assigns to the variable of another. -/
  rounds : ∀ (depth rounds : Nat) (range : RangeCode) (body : List Step) (r : Range)
    (m' : Machine), (evalRange (answering depth) frame range).run.run m = (.ok r, m') →
    let Made := fun starts => LoopRounds (RangeState.turn slot)
      (fun f => execBlock (answering depth) rounds body f) (r.state rounds) (frame, m') starts
      ((exec (answering depth) rounds (.forLoop slot range body) frame).run.run m)
    (∃! starts, Made starts) ∧ ∀ starts, Made starts →
      starts.Pairwise fun c d => ∀ f g, Step.Visits (answering depth) rounds body c f →
        Step.Visits (answering depth) rounds body d g → f.1.Apart slot g.1

namespace Frame

variable {frame : Frame} {m : Machine} {slot : Nat}

/-- The rounds of a loop over a slot that is kept in a cell. -/
theorem pairwise_apart (hcells : frame.Within m.heap) (hslot : frame.boxes[slot]? = some true)
    {depth rounds : Nat} {body : List Step} {s : RangeState} {starts : List (Frame × Machine)}
    {r : Except Stop (Flow × Frame) × Machine}
    (hrounds : LoopRounds (RangeState.turn slot)
      (fun f => execBlock (answering depth) rounds body f) s (frame, m) starts r) :
    starts.Pairwise fun c d => ∀ f g, Step.Visits (answering depth) rounds body c f →
      Step.Visits (answering depth) rounds body d g → f.1.Apart slot g.1 := by
  have hcaller := keepsCells_answering depth
  have hbody := lives_execBlock hcaller rounds body
  have hkept : ∀ c ∈ starts, ∀ f, Step.Visits (answering depth) rounds body c f →
      ∃ cell, f.1.capture (.slot slot) = .ok cell := by
    intro c hc f hf
    have hlater :=
      (hrounds.later_start (lives_rangeTurn slot) hbody c hc).trans (hf.later hcaller)
    exact exists_capture_of_boxes (hlater.ages.boxes ▸ hslot)
  refine (hrounds.pairwise_lt hcaller hcells).imp_of_mem ?_
  intro c d hc hd hlt f g hf hg
  obtain ⟨cell, hcell⟩ := hkept c hc f hf
  obtain ⟨cell', hcell'⟩ := hkept d hd g hg
  exact apart_of_capture hcell hcell' (Nat.ne_of_lt (hlt f g hf hg _ _ hcell hcell'))

open FrameOperation in
/-- A frame that refers to existing cells only. -/
theorem sharesByDeclaration (hcells : frame.Within m.heap)
    (hslot : frame.boxes[slot]? = some true) : frame.SharesByDeclaration m slot where
  captures before between := by
    obtain ⟨cell, hcell⟩ := exists_capture_after (c := (frame, m.heap)) hslot before
    obtain ⟨cell', hcell'⟩ := exists_capture_after (c := (frame, m.heap)) hslot (before ++ between)
    have hwithin := (ages_after before (frame, m.heap)).within hcells
    refine ⟨cell, cell', shares_of_capture hcell, shares_of_capture hcell', ?_⟩
    rw [after_append] at hcell'
    exact capture_after_eq_iff hwithin hcell hcell'
  reads ops := read_after ops hcells hslot
  writes earlier later between v w x cell hcell := by
    have hold := (ages_after earlier (frame, m.heap)).within hcells hcell
    rw [List.append_assoc, after_append]
    exact cell_write_after (List.mem_append_right later (.head _)) hold w
  rounds depth rounds range body r m' hrange := by
    have hentry :=
      ((keepsCells_evalRange (keepsCells_answering depth) range).later hrange).ages
    refine ⟨?_, fun starts hrounds => pairwise_apart (hentry.within hcells) hslot hrounds⟩
    rw [exec, run_bind, hrange]
    obtain ⟨starts, hrounds⟩ := exists_loopRounds_rangeLoop slot
      (fun f => execBlock (answering depth) rounds body f) rounds r frame m'
    exact ⟨starts, hrounds, fun _ hother => hother.unique hrounds⟩

end Frame

/-- **Sharing.** Let a slot of a frame be kept in a cell, and let the frame refer to existing cells
only.  Then closures share the variable of the slot exactly by its declarations.

The frames of runs are of this kind.  A host does anything with cells that exist, and then code
runs for one of its closures: every frame in which a statement of the code starts shares its
variables in this way. -/
theorem closures_share_by_declaration :
    (∀ (frame : Frame) (m : Machine) (slot : Nat), frame.Within m.heap →
      frame.boxes[slot]? = some true → frame.SharesByDeclaration m slot) ∧
    ∀ (deeds : List Deed) (callee : Value) (closure : Closure) (spec : Specialization)
      (engine : EngineId) (args : List Value) (depth rounds : Nat) (frame : Frame) (m : Machine)
      (slot : Nat), Deed.AllHaveCells .empty deeds →
      (Deed.run .empty deeds).heap.closure? callee = some closure →
      Step.Visits (answering depth) rounds spec.body
        (spec.opening engine closure.cells args (Deed.run .empty deeds)) (frame, m) →
      frame.boxes[slot]? = some true → frame.SharesByDeclaration m slot := by
  refine ⟨fun _ _ _ hcells hslot => Frame.sharesByDeclaration hcells hslot, ?_⟩
  intro deeds callee closure spec engine args depth rounds frame m slot hdeeds hclosure hvisits
    hslot
  obtain ⟨hcells, -⟩ := Deed.within_of_visits hdeeds hclosure spec hvisits
  exact Frame.sharesByDeclaration hcells hslot

open FrameOperation in
/-- A host makes a closure and runs code for it: a loop of two rounds over a captured slot, with a
literal that closes over the slot.  The two closures hold different cells, and so do closures made
before and after a declaration. -/
theorem closures_share_by_declaration_two_rounds :
    let deeds : List Deed := [.operate (.addFunction "g" (.closure ⟨⟨1, "g"⟩, [], 0⟩))]
    let range : RangeCode := .int (.int 1) (.box .int (.int 2)) (.int 1)
    let body : List Step := [.discard (.function ⟨1, "f"⟩ [.slot 0])]
    let spec : Specialization :=
      ⟨⟨1, "g"⟩, ⟨[], [], false⟩, [], "g", 0, [true], [.unknown], #[], [.forLoop 0 range body], []⟩
    let frame : Frame := ⟨0, #[.shared 0], [], #[], [.unknown]⟩
    let m := (spec.opening 0 [] [] (Deed.run .empty deeds)).2
    Step.Visits (answering 1) 1 spec.body (spec.opening 0 [] [] (Deed.run .empty deeds))
        (frame, m) ∧
      frame.boxes[0]? = some true ∧
      (∃ cell cell', frame.Shares 0 cell ∧
        (after (frame, m.heap) [.capture 0, .declare 0 .nil]).1.Shares 0 cell' ∧ cell ≠ cell') ∧
      ∃ first second, LoopRounds (RangeState.turn 0) (fun f => execBlock (answering 1) 1 body f)
        (.int 1 2 1) (frame, m) [first, second]
        ((exec (answering 1) 1 (.forLoop 0 range body) frame).run.run m) ∧
        first.1.Apart 0 second.1 := by
  intro deeds range body spec frame m
  have hvisits : Step.Visits (answering 1) 1 spec.body
      (spec.opening 0 [] [] (Deed.run .empty deeds)) (frame, m) := .here
  have hslot : frame.boxes[0]? = some true := rfl
  have hdeeds : Deed.AllHaveCells .empty deeds := by
    refine ⟨fun closure hclosure cell hcell => ?_, trivial⟩
    cases hclosure
    cases hcell
  obtain ⟨-, hruns⟩ := closures_share_by_declaration
  have hshares :=
    hruns deeds (.function ⟨0, "g"⟩) _ spec 0 [] 1 1 frame m 0 hdeeds rfl hvisits hslot
  refine ⟨hvisits, hslot, ?_, ?_⟩
  · obtain ⟨cell, cell', hcell, hcell', heq⟩ := hshares.captures [.capture 0] [.declare 0 .nil]
    exact ⟨cell, cell', hcell, hcell', fun h => heq.1 h .nil (.head _)⟩
  · have hrange : (evalRange (answering 1) frame range).run.run m = (.ok (.int 1 (.int 2) 1), m) :=
      rfl
    obtain ⟨-, hapart⟩ := hshares.rounds 1 1 range body _ _ hrange
    let first := declared 0 (.int 1) frame m
    let second := declared 0 (.int 2) first.1 (first.2.instantiateWith 0 ⟨1, "f"⟩ [1]).2
    have hmade : LoopRounds (RangeState.turn 0) (fun f => execBlock (answering 1) 1 body f)
        (.int 1 2 1) (frame, m) [first, second]
        ((exec (answering 1) 1 (.forLoop 0 range body) frame).run.run m) :=
      .next (d := first) rfl rfl (.next (d := second) rfl rfl (.finished rfl))
    have hpair := List.rel_of_pairwise_cons (hapart _ hmade) (.head _)
    exact ⟨first, second, hmade, hpair _ _ .here .here⟩

end AdaptiveScript
