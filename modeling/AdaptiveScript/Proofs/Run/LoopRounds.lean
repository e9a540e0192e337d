import AdaptiveScript.Proofs.Run.Rounds

/-!
# The rounds of a loop

All loops go through rounds in the same way, and differ only in what happens before a round: a
condition is evaluated, or a new variable takes the next number.  This turn of the loop is a
computation of its own (`Turn`).  It tells whether there is a round, and in which frame the body
starts; it can also fail, and then so does the loop.

`LoopRounds` lists the starts of the rounds in order.  Each round but the last ends normally, and
the loop goes on from where it ended.  A loop that takes its turns and runs its body in between has
exactly one such list (`exists_loopRounds`, `LoopRounds.unique`), and both kinds of loops do so
(`whileLoop_eq`, `RangeState.loop_eq`).  So what is to be shown of a loop is shown by induction on
its rounds, once for all kinds.
-/

namespace AdaptiveScript

/-- What a loop comes to after a round that is its last: a break ends it normally. -/
def afterLast : Except Stop (Flow × Frame) → Except Stop (Flow × Frame)
  | .ok (.leave, frame) => .ok (.normal, frame)
  | result => result

theorem exists_of_afterLast {result : Except Stop (Flow × Frame)} {out : Flow × Frame}
    (h : afterLast result = .ok out) : ∃ flow, result = .ok (flow, out.2) := by
  unfold afterLast at h
  split at h
  · cases h
    exact ⟨.leave, rfl⟩
  · exact ⟨out.1, h⟩

/-- The turns of a loop, by where it stands.  A turn finds that there are no more rounds, or gives
the frame of the next round and where the loop stands after it. -/
abbrev Turn (σ : Type) := σ → Frame → Run (Option (σ × Frame))

section Rounds

variable {σ : Type} (turn : Turn σ) (body : Frame → Run (Flow × Frame))

/-- The rounds of a loop that goes on from a frame in a machine, each told by the frame and the
machine in which its body starts, and what the loop comes to. -/
inductive LoopRounds :
    σ → Frame × Machine → List (Frame × Machine) → Except Stop (Flow × Frame) × Machine → Prop
  /-- There are no more rounds. -/
  | finished {s : σ} {c : Frame × Machine} {m : Machine} :
    (turn s c.1).run.run c.2 = (.ok none, m) → LoopRounds s c [] (.ok (.normal, c.1), m)
  /-- The loop stops because its turn does. -/
  | stopped {s : σ} {c : Frame × Machine} {stop : Stop} {m : Machine} :
    (turn s c.1).run.run c.2 = (.error stop, m) → LoopRounds s c [] (.error stop, m)
  /-- A round ends normally, and the loop goes on. -/
  | next {s s' : σ} {c d : Frame × Machine} {frame : Frame} {m : Machine}
    {starts : List (Frame × Machine)} {r : Except Stop (Flow × Frame) × Machine} :
    (turn s c.1).run.run c.2 = (.ok (some (s', d.1)), d.2) →
    (body d.1).run.run d.2 = (.ok (.normal, frame), m) →
    LoopRounds s' (frame, m) starts r → LoopRounds s c (d :: starts) r
  /-- A round that does not end normally is the last. -/
  | last {s s' : σ} {c d : Frame × Machine} {result : Except Stop (Flow × Frame)} {m : Machine} :
    (turn s c.1).run.run c.2 = (.ok (some (s', d.1)), d.2) →
    (body d.1).run.run d.2 = (result, m) → (∀ frame, result ≠ .ok (.normal, frame)) →
    LoopRounds s c [d] (afterLast result, m)

/-- A loop takes a turn, and a round if there is one, and goes on. -/
def turning (loop : σ → Frame → Run (Flow × Frame)) (s : σ) (frame : Frame) :
    Run (Flow × Frame) := do
  match ← turn s frame with
  | none => return (.normal, frame)
  | some (s', next) => afterRound (loop s') (← body next)

variable {turn body}

/-- **A loop has its rounds** if it takes turns and there are finitely many of them. -/
theorem exists_loopRounds {loop : σ → Frame → Run (Flow × Frame)}
    (hloop : ∀ s frame, loop s frame = turning turn body loop s frame) (size : σ → Nat)
    (hsize : ∀ {s s' frame frame' m m'},
      (turn s frame).run.run m = (.ok (some (s', frame')), m') → size s' < size s) (s : σ)
    (frame : Frame) (m : Machine) :
    ∃ starts, LoopRounds turn body s (frame, m) starts ((loop s frame).run.run m) := by
  induction hk : size s using Nat.strongRecOn generalizing s frame m with
  | ind k ih =>
    subst hk
    rw [hloop, turning, run_bind]
    cases hturn : (turn s frame).run.run m with
    | mk found m₁ =>
      cases found with
      | error stop => exact ⟨[], .stopped hturn⟩
      | ok found =>
        cases found with
        | none => exact ⟨[], .finished hturn⟩
        | some found =>
          obtain ⟨s', next⟩ := found
          dsimp only
          rw [run_bind]
          cases hbody : (body next).run.run m₁ with
          | mk result m₂ =>
            cases result with
            | error stop => exact ⟨_, .last (d := (next, m₁)) hturn hbody fun _ h => (by cases h)⟩
            | ok out =>
              obtain ⟨flow, frame'⟩ := out
              cases flow with
              | normal =>
                obtain ⟨starts, hrounds⟩ := ih _ (hsize hturn) s' frame' m₂ rfl
                exact ⟨_, .next (d := (next, m₁)) hturn hbody hrounds⟩
              | leave => exact ⟨_, .last (d := (next, m₁)) hturn hbody fun _ h => (by cases h)⟩
              | ret values => exact ⟨_, .last (d := (next, m₁)) hturn hbody fun _ h => (by cases h)⟩

theorem eq_of_turn {s s' s'' : σ} {c d d' : Frame × Machine}
    (h : (turn s c.1).run.run c.2 = (.ok (some (s', d.1)), d.2))
    (h' : (turn s c.1).run.run c.2 = (.ok (some (s'', d'.1)), d'.2)) : s' = s'' ∧ d = d' := by
  obtain ⟨frame, m⟩ := d
  obtain ⟨frame', m'⟩ := d'
  cases h.symm.trans h'
  exact ⟨rfl, rfl⟩

/-- A loop has no other rounds. -/
theorem LoopRounds.unique {s : σ} {c : Frame × Machine} {starts starts' : List (Frame × Machine)}
    {r r' : Except Stop (Flow × Frame) × Machine} (h : LoopRounds turn body s c starts r)
    (h' : LoopRounds turn body s c starts' r') : starts = starts' := by
  induction h generalizing starts' r' with
  | finished hturn =>
    cases h' with
    | finished => rfl
    | stopped => rfl
    | next hturn' => cases hturn.symm.trans hturn'
    | last hturn' => cases hturn.symm.trans hturn'
  | stopped hturn =>
    cases h' with
    | finished => rfl
    | stopped => rfl
    | next hturn' => cases hturn.symm.trans hturn'
    | last hturn' => cases hturn.symm.trans hturn'
  | next hturn hround _ ih =>
    cases h' with
    | finished hturn' => cases hturn.symm.trans hturn'
    | stopped hturn' => cases hturn.symm.trans hturn'
    | next hturn' hround' hrest' =>
      obtain ⟨rfl, rfl⟩ := eq_of_turn hturn hturn'
      cases hround.symm.trans hround'
      rw [ih hrest']
    | last hturn' hround' hnot =>
      obtain ⟨rfl, rfl⟩ := eq_of_turn hturn hturn'
      cases hround.symm.trans hround'
      exact (hnot _ rfl).elim
  | last hturn hround hnot =>
    cases h' with
    | finished hturn' => cases hturn.symm.trans hturn'
    | stopped hturn' => cases hturn.symm.trans hturn'
    | next hturn' hround' _ =>
      obtain ⟨rfl, rfl⟩ := eq_of_turn hturn hturn'
      cases hround.symm.trans hround'
      exact (hnot _ rfl).elim
    | last hturn' _ _ =>
      obtain ⟨-, rfl⟩ := eq_of_turn hturn hturn'
      rfl

end Rounds

/-! ## Loops with a condition -/

section While

variable (cond : Frame → Run Bool) (body : Frame → Run (Flow × Frame))

/-- The turn of a loop with a condition, by how many rounds there may still be. -/
def whileTurn : Turn Nat
  | 0, _ => throw .exhausted
  | rounds + 1, frame => do
    return if ← cond frame then some (rounds, frame) else none

variable {cond} in
/-- A turn with a round evaluates the condition, and then there are fewer rounds to come. -/
theorem exists_of_whileTurn {s s' : Nat} {frame frame' : Frame} {m m' : Machine}
    (h : (whileTurn cond s frame).run.run m = (.ok (some (s', frame')), m')) :
    s' < s ∧ frame' = frame ∧ (cond frame).run.run m = (.ok true, m') := by
  cases s with
  | zero => cases h
  | succ rounds =>
    obtain ⟨holds, m₁, hcond, hrest⟩ := exists_of_run_bind h
    cases holds with
    | false => cases hrest
    | true =>
      cases hrest
      exact ⟨Nat.lt_succ_self _, rfl, hcond⟩

theorem whileLoop_eq (rounds : Nat) (frame : Frame) : whileLoop cond body rounds frame =
    turning (whileTurn cond) body (whileLoop cond body) rounds frame := by
  cases rounds with
  | zero => rfl
  | succ rounds =>
    rw [whileLoop, turning, whileTurn, bind_assoc]
    refine bind_congr fun holds => ?_
    cases holds <;> rw [pure_bind] <;> rfl

theorem exists_loopRounds_whileLoop (rounds : Nat) (frame : Frame) (m : Machine) :
    ∃ starts, LoopRounds (whileTurn cond) body rounds (frame, m) starts
      ((whileLoop cond body rounds frame).run.run m) := by
  exact exists_loopRounds (whileLoop_eq cond body) id (fun hturn => (exists_of_whileTurn hturn).1)
    rounds frame m

end While

/-! ## Numeric loops -/

/-- Where a numeric loop stands. -/
inductive RangeState where
  /-- Its operands are no range. -/
  | failed (e : RuntimeError)
  /-- It has no rounds. -/
  | done
  /-- It counts with integers, for some more rounds. -/
  | int (step : Int) (count : Nat) (i : Int)
  /-- It counts with floats, and there may be some more rounds. -/
  | float (limit step : Float) (rounds : Nat) (x : Float)

/-- Where a loop over a range stands when it begins. -/
def Range.state (rounds : Nat) : Range → RangeState
  | .int start limit step =>
    if step = 0 then .failed .zeroStep
    else
      match intLimit limit step with
      | .error e => .failed e
      | .ok none => .done
      | .ok (some bound) =>
        .int step.toInt (rangeLength start.toInt bound.toInt step.toInt) start.toInt
  | .float start limit step =>
    if Binary64.order step 0.0 = some .eq then .failed .zeroStep
    else .float limit step rounds start

namespace RangeState

variable (slot : Nat) (body : Frame → Run (Flow × Frame))

/-- The turn of a numeric loop: a round has a new variable. -/
def turn : Turn RangeState
  | .failed e, _ => Run.raise e
  | .done, _ => pure none
  | .int _ 0 _, _ => pure none
  | .int step (count + 1) i, frame => do
    return some (.int step count (i + step), ← declareLocal slot (.int (Int64.ofInt i)) frame)
  | .float _ _ 0 _, _ => throw .exhausted
  | .float limit step (rounds + 1) x, frame => do
    if floatGoesOn x limit step then
      return some (.float limit step rounds (x + step), ← declareLocal slot (.float x) frame)
    else return none

/-- The rest of a loop. -/
def loop : RangeState → Frame → Run (Flow × Frame)
  | .failed e, _ => Run.raise e
  | .done, frame => pure (.normal, frame)
  | .int step count i, frame => intLoop slot body step count i frame
  | .float limit step rounds x, frame => floatLoop slot body limit step rounds x frame

theorem loop_eq (s : RangeState) (frame : Frame) :
    s.loop slot body frame = turning (turn slot) body (loop slot body) s frame := by
  cases s with
  | failed e => rfl
  | done => rfl
  | int step count i =>
    cases count with
    | zero => rfl
    | succ count => rfl
  | float limit step rounds x =>
    cases rounds with
    | zero => rfl
    | succ rounds =>
      rw [loop, floatLoop, turning, turn]
      split <;> rfl

/-- How many more rounds there can be. -/
def size : RangeState → Nat
  | .failed _ => 0
  | .done => 0
  | .int _ count _ => count
  | .float _ _ rounds _ => rounds

variable {slot}

/-- A round starts with a new variable, and then there are fewer rounds to come. -/
theorem exists_of_turn {s s' : RangeState} {frame frame' : Frame} {m m' : Machine}
    (h : (turn slot s frame).run.run m = (.ok (some (s', frame')), m')) :
    s'.size < s.size ∧ ∃ v, (frame', m') = declared slot v frame m := by
  cases s with
  | failed e => cases h
  | done => cases h
  | int step count i =>
    cases count with
    | zero => cases h
    | succ count =>
      cases h
      exact ⟨Nat.lt_succ_self _, _, rfl⟩
  | float limit step rounds x =>
    cases rounds with
    | zero => cases h
    | succ rounds =>
      rw [turn] at h
      split at h
      · cases h
        exact ⟨Nat.lt_succ_self _, _, rfl⟩
      · cases h

end RangeState

theorem rangeLoop_eq_loop (slot : Nat) (body : Frame → Run (Flow × Frame)) (rounds : Nat)
    (range : Range) (frame : Frame) :
    rangeLoop slot body rounds range frame = (range.state rounds).loop slot body frame := by
  cases range with
  | int start limit step =>
    rw [rangeLoop, Range.state]
    split
    · rfl
    · cases intLimit limit step with
      | error e => rfl
      | ok bound => cases bound <;> rfl
  | float start limit step =>
    rw [rangeLoop, Range.state]
    split <;> rfl

/-- Every numeric loop has its rounds, whatever it counts with. -/
theorem exists_loopRounds_rangeLoop (slot : Nat) (body : Frame → Run (Flow × Frame))
    (rounds : Nat) (range : Range) (frame : Frame) (m : Machine) : ∃ starts,
      LoopRounds (RangeState.turn slot) body (range.state rounds) (frame, m) starts
        ((rangeLoop slot body rounds range frame).run.run m) := by
  rw [rangeLoop_eq_loop]
  exact exists_loopRounds (RangeState.loop_eq slot body) RangeState.size
    (fun hturn => (RangeState.exists_of_turn hturn).1) _ frame m

end AdaptiveScript
