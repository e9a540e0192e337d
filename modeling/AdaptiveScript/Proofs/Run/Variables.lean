import AdaptiveScript.Proofs.Run.Statement

/-!
# The frames that a run passes through

A frame changes only where a variable is declared or assigned, and neither moves a local from the
frame into a cell or back (`Frame.boxes`).  So what a statement does to its frame is bounded by
the slots that stand in it (`Step.targets`): all other locals are as they were, and each local is
kept where it was kept before (`Frame.Alters`).

This holds of the frame that a statement leaves behind (`confined_exec`) and of all frames on the
way there, between the statements of nested blocks and in every round of a loop
(`Step.Reaches`).  Nothing is assumed about the code, nor about the machine it runs in, which
other code may change in between.
-/

namespace AdaptiveScript

/-- Whether a variable is kept in a cell. -/
def Variable.isShared : Variable → Bool
  | .plain _ => false
  | .shared _ => true

namespace Frame

/-- For each local whether it is kept in a cell. -/
def boxes (frame : Frame) : List Bool :=
  frame.locals.toList.map Variable.isShared

/-- At most the given slots differ between two frames, and each local is kept where it was. -/
structure Alters (slots : List Nat) (before after : Frame) : Prop where
  boxes : after.boxes = before.boxes
  others : ∀ slot ∉ slots, after.locals[slot]? = before.locals[slot]?

namespace Alters

variable {slots wider : List Nat}

theorem refl (slots : List Nat) (frame : Frame) : Alters slots frame frame :=
  ⟨rfl, fun _ _ => rfl⟩

theorem trans {a b c : Frame} (hab : Alters slots a b) (hbc : Alters slots b c) :
    Alters slots a c := by
  constructor
  · exact hbc.boxes.trans hab.boxes
  · intro slot hslot
    exact (hbc.others slot hslot).trans (hab.others slot hslot)

theorem mono {a b : Frame} (h : Alters slots a b) (hle : slots ⊆ wider) : Alters wider a b :=
  ⟨h.boxes, fun slot hslot => h.others slot fun hmem => hslot (hle hmem)⟩

end Alters

variable (frame : Frame) (heap : Heap) (slot : Nat) (v : Value)

/-- A local is replaced by one that is kept in the same way. -/
theorem boxes_setIfInBounds {frame : Frame} {slot : Nat} {old new : Variable}
    (hold : frame.locals[slot]? = some old) (hkind : new.isShared = old.isShared) :
    boxes { frame with locals := frame.locals.setIfInBounds slot new } = frame.boxes := by
  unfold boxes
  rw [Array.toList_setIfInBounds, List.map_set]
  apply List.ext_getElem?
  intro other
  rw [List.getElem?_set]
  split
  · next heq =>
    subst heq
    have hlt := (Array.getElem?_eq_some_iff.1 hold).1
    rw [if_pos (by simpa using hlt), List.getElem?_map, Array.getElem?_toList, hold, hkind]
    rfl
  · rfl

theorem boxes_declare : (frame.declare heap slot v).1.boxes = frame.boxes := by
  unfold declare
  split
  · next hold => exact boxes_setIfInBounds hold rfl
  · next hold => exact boxes_setIfInBounds hold rfl
  · rfl

theorem boxes_write : (frame.write heap slot v).1.boxes = frame.boxes := by
  unfold write
  split
  · next hold => exact boxes_setIfInBounds hold rfl
  · rfl
  · rfl

theorem alters_declare : frame.Alters [slot] (frame.declare heap slot v).1 := by
  refine ⟨frame.boxes_declare heap slot v, fun other hother => ?_⟩
  exact (frame.sets_declare heap slot v).others other (List.ne_of_not_mem_cons hother)

theorem alters_write : frame.Alters [slot] (frame.write heap slot v).1 := by
  refine ⟨frame.boxes_write heap slot v, fun other hother => ?_⟩
  exact (frame.sets_write heap slot v).others other (List.ne_of_not_mem_cons hother)

variable {frame slot}

/-- A local that is not kept in a cell reads the same whatever happens outside the frame. -/
theorem read_eq_of_boxes (h : frame.boxes[slot]? = some false) (heap heap' : Heap) :
    frame.read heap slot = frame.read heap' slot := by
  unfold read
  rw [boxes, List.getElem?_map, Array.getElem?_toList, Option.map_eq_some_iff] at h
  obtain ⟨x, hx, hkind⟩ := h
  rw [hx]
  cases x with
  | plain v => rfl
  | shared cell => cases hkind

/-- A local that is kept in a cell can be captured. -/
theorem exists_capture_of_boxes (h : frame.boxes[slot]? = some true) :
    ∃ cell, frame.capture (.slot slot) = .ok cell := by
  rw [boxes, List.getElem?_map, Array.getElem?_toList, Option.map_eq_some_iff] at h
  obtain ⟨x, hx, hkind⟩ := h
  rw [capture, hx]
  cases x with
  | plain v => cases hkind
  | shared cell => exact ⟨cell, rfl⟩

end Frame

/-! ## Statements -/

mutual

/-- The slots that a statement declares or assigns, in nested blocks too. -/
def Step.targets : Step → List Nat
  | .declare slot _ => [slot]
  | .assign slot _ => [slot]
  | .branch _ thenBlock elseBlock => Step.blockTargets thenBlock ++ Step.blockTargets elseBlock
  | .whileLoop _ body => Step.blockTargets body
  | .forLoop slot _ body => slot :: Step.blockTargets body
  | _ => []

/-- The slots that the statements of a block declare or assign. -/
def Step.blockTargets : List Step → List Nat
  | [] => []
  | s :: rest => s.targets ++ Step.blockTargets rest

end

/-- Whatever frame a body starts from, it changes at most the given slots. -/
def Confined (slots : List Nat) (body : Frame → Run (Flow × Frame)) : Prop :=
  ∀ frame, Delivers (body frame) fun out => frame.Alters slots out.2

section Statements

variable {slots : List Nat}

theorem delivers_declareLocal (slot : Nat) (v : Value) (frame : Frame) :
    Delivers (declareLocal slot v frame) fun frame' => frame.Alters [slot] frame' := by
  intro m frame' m' heq
  cases heq
  exact frame.alters_declare m.heap slot v

theorem delivers_writeLocal (slot : Nat) (v : Value) (frame : Frame) :
    Delivers (writeLocal slot v frame) fun frame' => frame.Alters [slot] frame' := by
  intro m frame' m' heq
  cases heq
  exact frame.alters_write m.heap slot v

/-- A loop goes on from the frame of its last round. -/
theorem delivers_afterRound {again : Frame → Run (Flow × Frame)} (hagain : Confined slots again)
    {frame : Frame} {out : Flow × Frame} (h : frame.Alters slots out.2) :
    Delivers (afterRound again out) fun out' => frame.Alters slots out'.2 := by
  obtain ⟨flow, frame'⟩ := out
  cases flow with
  | normal => exact (hagain frame').mono fun _ hrest => h.trans hrest
  | leave => exact .pure h
  | ret values => exact .pure h

section Loops

variable {body : Frame → Run (Flow × Frame)} (hbody : Confined slots body)
include hbody

theorem confined_whileLoop (cond : Frame → Run Bool) (rounds : Nat) :
    Confined slots (whileLoop cond body rounds) := by
  induction rounds with
  | zero => exact fun _ => .throw
  | succ rounds ih =>
    intro frame
    rw [whileLoop]
    refine .andThen fun holds => ?_
    split
    · exact (hbody frame).bind fun _ hround => delivers_afterRound ih hround
    · exact .pure (.refl _ _)

variable {slot : Nat} (hslot : slot ∈ slots)
include hslot

/-- One round of a numeric loop, which has a variable of its own. -/
theorem delivers_round (v : Value) {again : Frame → Run (Flow × Frame)}
    (hagain : Confined slots again) (frame : Frame) : Delivers (do
      let frame' ← declareLocal slot v frame
      afterRound again (← body frame')) fun out => frame.Alters slots out.2 := by
  refine (delivers_declareLocal slot v frame).bind fun frame' hnew => ?_
  refine (hbody frame').bind fun out hround => delivers_afterRound hagain (.trans ?_ hround)
  exact hnew.mono (by simpa using hslot)

theorem confined_intLoop (step : Int) (count : Nat) :
    ∀ i, Confined slots (intLoop slot body step count i) := by
  induction count with
  | zero => exact fun _ _ => .pure (.refl _ _)
  | succ count ih =>
    intro i frame
    rw [intLoop]
    exact delivers_round hbody hslot _ (ih (i + step)) frame

theorem confined_floatLoop (limit step : Float) (rounds : Nat) :
    ∀ x, Confined slots (floatLoop slot body limit step rounds x) := by
  induction rounds with
  | zero => exact fun _ _ => .throw
  | succ rounds ih =>
    intro x frame
    rw [floatLoop]
    split
    · exact delivers_round hbody hslot _ (ih (x + step)) frame
    · exact .pure (.refl _ _)

theorem confined_rangeLoop (rounds : Nat) (range : Range) :
    Confined slots (rangeLoop slot body rounds range) := by
  intro frame
  cases range with
  | int start limit step =>
    rw [rangeLoop]
    split
    · exact .throw
    · refine .andThen fun bound => ?_
      cases bound with
      | none => exact .pure (.refl _ _)
      | some bound => exact confined_intLoop hbody hslot _ _ _ frame
  | float start limit step =>
    rw [rangeLoop]
    split
    · exact .throw
    · exact confined_floatLoop hbody hslot limit step rounds start frame

end Loops

variable (caller : Caller) (rounds : Nat)

mutual

/-- A statement changes at most the slots that stand in it. -/
theorem confined_exec : ∀ s : Step, Confined s.targets (exec caller rounds s)
  | .declare slot value => by
    intro frame
    rw [exec, Step.targets]
    exact .andThen fun v => (delivers_declareLocal slot v frame).bind fun _ h => .pure h
  | .assign slot value => by
    intro frame
    rw [exec, Step.targets]
    exact .andThen fun v => (delivers_writeLocal slot v frame).bind fun _ h => .pure h
  | .setUpvalue index value => by
    intro frame
    rw [exec]
    exact .andThen fun _ => .andThen fun _ => .andThen fun _ => .andThen fun _ => .pure (.refl _ _)
  | .setGlobal name value => by
    intro frame
    rw [exec]
    exact .andThen fun _ => .andThen fun _ => .pure (.refl _ _)
  | .setField f target value => by
    intro frame
    rw [exec]
    exact .andThen fun _ => .andThen fun _ => .andThen fun _ => .andThen fun _ => .andThen fun _ =>
      .pure (.refl _ _)
  | .setIndex target key value => by
    intro frame
    rw [exec]
    exact .andThen fun _ => .andThen fun _ => .andThen fun _ => .andThen fun _ => .andThen fun _ =>
      .andThen fun _ => .pure (.refl _ _)
  | .discard value => by
    intro frame
    rw [exec]
    exact .andThen fun _ => .pure (.refl _ _)
  | .call code => by
    intro frame
    rw [exec]
    exact .andThen fun _ => .pure (.refl _ _)
  | .branch cond thenBlock elseBlock => by
    intro frame
    rw [exec, Step.targets]
    refine .andThen fun holds => ?_
    split
    · exact (confined_execBlock thenBlock frame).mono fun _ h =>
        h.mono (List.subset_append_left _ _)
    · exact (confined_execBlock elseBlock frame).mono fun _ h =>
        h.mono (List.subset_append_right _ _)
  | .whileLoop cond body => by
    intro frame
    rw [exec, Step.targets]
    exact confined_whileLoop (confined_execBlock body) _ rounds frame
  | .forLoop slot range body => by
    intro frame
    rw [exec, Step.targets]
    refine .andThen fun r => confined_rangeLoop (fun frame' => ?_) (List.mem_cons_self ..) _ r frame
    exact (confined_execBlock body frame').mono fun _ h => h.mono (List.subset_cons_self _ _)
  | .ret values => by
    intro frame
    rw [exec]
    exact .andThen fun _ => .pure (.refl _ _)
  | .retCall code => by
    intro frame
    rw [exec]
    exact .andThen fun _ => .pure (.refl _ _)
  | .breakLoop => by
    intro frame
    rw [exec]
    exact .pure (.refl _ _)

/-- A block changes at most the slots that stand in its statements. -/
theorem confined_execBlock : ∀ block : List Step,
    Confined (Step.blockTargets block) (execBlock caller rounds block)
  | [] => by
    intro frame
    rw [execBlock]
    exact .pure (.refl _ _)
  | s :: rest => by
    intro frame
    rw [execBlock, Step.blockTargets]
    refine (confined_exec s frame).bind fun out hout => ?_
    have hfirst := hout.mono (List.subset_append_left _ (Step.blockTargets rest))
    obtain ⟨flow, frame'⟩ := out
    cases flow with
    | normal =>
      refine (confined_execBlock rest frame').mono fun _ hrest => hfirst.trans ?_
      exact hrest.mono (List.subset_append_right _ _)
    | leave => exact .pure hfirst
    | ret values => exact .pure hfirst

end

end Statements

/-! ## The way through a block -/

/-- A block that starts with one frame passes through another.  Every step is taken in some
machine, so this covers each run, whatever the calls on the way do to the machine. -/
inductive Step.Reaches (caller : Caller) (rounds : Nat) : List Step → Frame → Frame → Prop
  /-- The block starts. -/
  | start {block : List Step} {frame : Frame} : Reaches caller rounds block frame frame
  /-- The first statement is over, however it leaves. -/
  | done {s : Step} {rest : List Step} {frame frame' : Frame} {flow : Flow} {m m' : Machine} :
    (exec caller rounds s frame).run.run m = (.ok (flow, frame'), m') →
    Reaches caller rounds (s :: rest) frame frame'
  /-- The other statements run after the first. -/
  | next {s : Step} {rest : List Step} {frame frame₁ frame' : Frame} {m m' : Machine} :
    (exec caller rounds s frame).run.run m = (.ok (.normal, frame₁), m') →
    Reaches caller rounds rest frame₁ frame' → Reaches caller rounds (s :: rest) frame frame'
  /-- A branch runs one of its blocks. -/
  | branch {cond : Code .bool} {thenBlock elseBlock rest : List Step} {frame frame' : Frame}
    {holds : Bool} {m m' : Machine} : (eval caller frame cond).run.run m = (.ok holds, m') →
    Reaches caller rounds (if holds then thenBlock else elseBlock) frame frame' →
    Reaches caller rounds (.branch cond thenBlock elseBlock :: rest) frame frame'
  /-- A loop runs its body. -/
  | whileBody {cond : Code .bool} {body rest : List Step} {frame frame' : Frame} {m m' : Machine} :
    (eval caller frame cond).run.run m = (.ok true, m') →
    Reaches caller rounds body frame frame' →
    Reaches caller rounds (.whileLoop cond body :: rest) frame frame'
  /-- A loop goes on after a round. -/
  | whileNext {cond : Code .bool} {body rest : List Step} {frame frame₁ frame' : Frame}
    {m m' : Machine} :
    (execBlock caller rounds body frame).run.run m = (.ok (.normal, frame₁), m') →
    Reaches caller rounds (.whileLoop cond body :: rest) frame₁ frame' →
    Reaches caller rounds (.whileLoop cond body :: rest) frame frame'
  /-- A numeric loop runs its body in a new variable. -/
  | forBody {slot : Nat} {range : RangeCode} {body rest : List Step} {frame frame₁ frame' : Frame}
    {v : Value} {m m' : Machine} : (declareLocal slot v frame).run.run m = (.ok frame₁, m') →
    Reaches caller rounds body frame₁ frame' →
    Reaches caller rounds (.forLoop slot range body :: rest) frame frame'
  /-- A numeric loop goes on after a round. -/
  | forNext {slot : Nat} {range : RangeCode} {body rest : List Step}
    {frame frame₁ frame₂ frame' : Frame} {v : Value} {m m₁ m' : Machine} :
    (declareLocal slot v frame).run.run m = (.ok frame₁, m₁) →
    (execBlock caller rounds body frame₁).run.run m₁ = (.ok (.normal, frame₂), m') →
    Reaches caller rounds (.forLoop slot range body :: rest) frame₂ frame' →
    Reaches caller rounds (.forLoop slot range body :: rest) frame frame'

/-- On its way through a block, a frame changes at most in the slots that stand there. -/
theorem Step.Reaches.alters {caller : Caller} {rounds : Nat} {block : List Step}
    {frame frame' : Frame} (h : Reaches caller rounds block frame frame') :
    frame.Alters (Step.blockTargets block) frame' := by
  induction h with
  | start => exact .refl _ _
  | done hrun =>
    rw [blockTargets]
    exact (confined_exec caller rounds _ _ hrun).mono (List.subset_append_left _ _)
  | next hrun _ ih =>
    rw [blockTargets]
    have hfirst := confined_exec caller rounds _ _ hrun
    exact (hfirst.mono (List.subset_append_left _ _)).trans
      (ih.mono (List.subset_append_right _ _))
  | @branch _ thenBlock elseBlock _ _ _ holds _ _ _ _ ih =>
    rw [blockTargets, targets]
    refine ih.mono (List.Subset.trans ?_ (List.subset_append_left _ _))
    cases holds with
    | true => exact List.subset_append_left _ _
    | false => exact List.subset_append_right _ _
  | whileBody _ _ ih =>
    rw [blockTargets, targets]
    exact ih.mono (List.subset_append_left _ _)
  | whileNext hround _ ih =>
    rw [blockTargets, targets] at ih ⊢
    have hbody := confined_execBlock caller rounds _ _ hround
    exact (hbody.mono (List.subset_append_left _ _)).trans ih
  | forBody hnew _ ih =>
    rw [blockTargets, targets]
    have hdeclare := delivers_declareLocal _ _ _ hnew
    refine (hdeclare.mono (by simp)).trans (ih.mono ?_)
    exact List.Subset.trans (List.subset_cons_self _ _) (List.subset_append_left _ _)
  | forNext hnew hround _ ih =>
    rw [blockTargets, targets] at ih ⊢
    have hdeclare := delivers_declareLocal _ _ _ hnew
    have hbody := confined_execBlock caller rounds _ _ hround
    refine (hdeclare.mono (by simp)).trans (.trans (hbody.mono ?_) ih)
    exact List.Subset.trans (List.subset_cons_self _ _) (List.subset_append_left _ _)

/-- The frame that a block leaves behind is one that it passes through. -/
theorem Step.Reaches.of_execBlock {caller : Caller} {rounds : Nat} {frame' : Frame} {flow : Flow}
    {m' : Machine} : ∀ {block : List Step} {frame : Frame} {m : Machine},
    (execBlock caller rounds block frame).run.run m = (.ok (flow, frame'), m') →
      Reaches caller rounds block frame frame'
  | [], frame, m, hrun => by
    rw [execBlock] at hrun
    cases hrun
    exact .start
  | s :: rest, frame, m, hrun => by
    rw [execBlock, run_bind] at hrun
    cases hfirst : (exec caller rounds s frame).run.run m with
    | mk result m₁ =>
      rw [hfirst] at hrun
      cases result with
      | error stop => cases hrun
      | ok out =>
        obtain ⟨flow₁, frame₁⟩ := out
        cases flow₁ with
        | normal => exact .next hfirst (of_execBlock hrun)
        | leave =>
          cases hrun
          exact .done hfirst
        | ret values =>
          cases hrun
          exact .done hfirst

end AdaptiveScript
