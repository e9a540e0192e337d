import AdaptiveScript.Proofs.Run.Loop
import AdaptiveScript.Proofs.Triple

/-!
# The rounds of an integer loop

The number of rounds of an integer loop is found before the first one.  A loop could also be run
round by round on machine integers: a test before each round, and after it an addition that is
checked for overflow (`wordLoop`).  The test alone would not end such a loop, for no machine
integer is past the last one; it is the failing addition that does.  Both are the same loop
(`wordLoop_eq_intLoop`).

What happens in a loop is told round by round.  A round begins with a new variable that holds the
integer of the round (`Begins`), whatever became of the variable before, and then the body runs.
After some rounds that end normally (`Rounds`) the loop ends, because there are no more rounds or
because the body broke off, returned or failed (`LoopEnds`).

## Main statements

* `rangeLength_eq_succ`: one round less from the next integer on.
* `wordLoop_eq_intLoop`: counting rounds and checking additions come to the same.
* `loopEnds_intLoop`: what happens in a loop that counts its rounds.
* `rangeLoop_of_int_limit`: the rounds of a loop with an integer limit.
-/

namespace AdaptiveScript

/-! ## One round less -/

namespace Range

/-- A loop that has a round has one more than the loop from the next integer on. -/
theorem rangeLength_eq_succ {step : Int} (hstep : step ≠ 0) {i limit : Int}
    (h : NotPast step limit i) :
    rangeLength i limit step = rangeLength (i + step) limit step + 1 := by
  have hcount (k : Nat) : k < rangeLength i limit step ↔
      k < rangeLength (i + step) limit step + 1 := by
    rw [lt_rangeLength_iff hstep]
    cases k with
    | zero => simpa using h
    | succ k =>
      have hterm : i + ((k + 1 : Nat) : Int) * step = i + step + k * step := by
        rw [Int.natCast_add, Int.add_mul]
        omega
      rw [hterm, ← lt_rangeLength_iff hstep]
      omega
  have hless := hcount (rangeLength (i + step) limit step)
  have hmore := hcount (rangeLength (i + step) limit step + 1)
  omega

theorem rangeLength_eq_zero {step : Int} (hstep : step ≠ 0) {i limit : Int}
    (h : ¬ NotPast step limit i) : rangeLength i limit step = 0 := by
  have hnone : ¬ 0 < rangeLength i limit step := by
    rw [lt_rangeLength_iff hstep]
    simpa using h
  omega

instance (n : Int) : Decidable (Fits n) :=
  inferInstanceAs (Decidable (_ ∧ _))

end Range

open Range

/-! ## Loops on machine integers -/

/-- The sum of two machine integers, unless it overflows. -/
def addWord? (i step : Int64) : Option Int64 :=
  if Fits (i.toInt + step.toInt) then some (i + step) else none

theorem toInt_of_addWord? {i step next : Int64} (h : addWord? i step = some next) :
    next.toInt = i.toInt + step.toInt := by
  unfold addWord? at h
  split at h
  · next hfits =>
    cases h
    have hsum : i + step = Int64.ofInt (i.toInt + step.toInt) := by
      rw [Int64.ofInt_add, Int64.ofInt_toInt, Int64.ofInt_toInt]
    rw [hsum, toInt_ofInt_of_fits hfits]
  · cases h

/-- An addition that overflows leads past every limit. -/
theorem not_notPast_of_addWord? {i step : Int64} (h : addWord? i step = none) (limit : Int64) :
    ¬ NotPast step.toInt limit.toInt (i.toInt + step.toInt) := by
  intro hnot
  have hfirst : NotPast step.toInt limit.toInt (i.toInt + ((1 : Nat) : Int) * step.toInt) := by
    simpa using hnot
  have hfits := fits_of_notPast hfirst
  unfold addWord? at h
  rw [if_pos (by simpa using hfits)] at h
  cases h

/-- A loop on machine integers has a round at `i`. -/
def GoesOn (limit step i : Int64) : Prop :=
  (0 < step ∧ i ≤ limit) ∨ (step < 0 ∧ limit ≤ i)

instance (limit step i : Int64) : Decidable (GoesOn limit step i) :=
  inferInstanceAs (Decidable (_ ∨ _))

theorem goesOn_iff {step : Int64} (hstep : step ≠ 0) (limit i : Int64) :
    GoesOn limit step i ↔ NotPast step.toInt limit.toInt i.toInt := by
  have hzero : step.toInt ≠ 0 := fun h => hstep (Int64.toInt_inj.mp h)
  unfold GoesOn NotPast
  rw [Int64.lt_iff_toInt_lt, Int64.lt_iff_toInt_lt, Int64.le_iff_toInt_le, Int64.le_iff_toInt_le,
    Int64.toInt_zero]
  split <;> omega

theorem ne_zero_of_goesOn {limit step i : Int64} (h : GoesOn limit step i) : step ≠ 0 := by
  rintro rfl
  rcases h with ⟨hpos, -⟩ | ⟨hneg, -⟩
  · exact absurd hpos (by decide)
  · exact absurd hneg (by decide)

/-- After an addition that does not overflow the loop has one round less. -/
theorem rangeLength_lt_of_addWord? {limit step i next : Int64} (hgoes : GoesOn limit step i)
    (hnext : addWord? i step = some next) :
    rangeLength next.toInt limit.toInt step.toInt < rangeLength i.toInt limit.toInt step.toInt := by
  have hstep := ne_zero_of_goesOn hgoes
  have hzero : step.toInt ≠ 0 := fun h => hstep (Int64.toInt_inj.mp h)
  rw [rangeLength_eq_succ hzero ((goesOn_iff hstep limit i).mp hgoes), toInt_of_addWord? hnext]
  exact Nat.lt_succ_self _

/-- Run a body for the machine integers from `i` to `limit`, `step` apart.  There is a test before
each round, and the loop ends when the next integer would overflow. -/
def wordLoop (slot : Nat) (body : Frame → Run (Flow × Frame)) (limit step i : Int64)
    (frame : Frame) : Run (Flow × Frame) :=
  if hgoes : GoesOn limit step i then do
    let frame ← declareLocal slot (.int i) frame
    afterRound (fun frame =>
      match hnext : addWord? i step with
      | some next =>
        have := rangeLength_lt_of_addWord? hgoes hnext
        wordLoop slot body limit step next frame
      | none => pure (.normal, frame)) (← body frame)
  else pure (.normal, frame)
termination_by rangeLength i.toInt limit.toInt step.toInt

/-- **Counting and checking.**  A loop that tests its integer before each round and checks the
addition after it has the rounds that are counted in advance. -/
theorem wordLoop_eq_intLoop (slot : Nat) (body : Frame → Run (Flow × Frame)) (limit : Int64)
    {step : Int64} (hstep : step ≠ 0) (count : Nat) :
    ∀ i frame, rangeLength i.toInt limit.toInt step.toInt = count →
      wordLoop slot body limit step i frame =
        intLoop slot body step.toInt count i.toInt frame := by
  have hzero : step.toInt ≠ 0 := fun h => hstep (Int64.toInt_inj.mp h)
  induction count with
  | zero =>
    intro i frame hcount
    have hpast : ¬ GoesOn limit step i := by
      intro hgoes
      have hsucc := rangeLength_eq_succ hzero ((goesOn_iff hstep limit i).mp hgoes)
      omega
    rw [wordLoop, dif_neg hpast, intLoop]
  | succ count ih =>
    intro i frame hcount
    have hgoes : GoesOn limit step i := by
      refine Decidable.byContradiction fun hpast => ?_
      have hnone := rangeLength_eq_zero hzero fun h => hpast ((goesOn_iff hstep limit i).mpr h)
      omega
    have hsucc := rangeLength_eq_succ hzero ((goesOn_iff hstep limit i).mp hgoes)
    -- after the round: the next integer, or the end of the range of machine integers
    have hrest : (fun frame => match hnext : addWord? i step with
        | some next => wordLoop slot body limit step next frame
        | none => pure (.normal, frame)) =
          intLoop slot body step.toInt count (i.toInt + step.toInt) := by
      funext frame
      split
      · next next hnext =>
        have hint := toInt_of_addWord? hnext
        rw [ih next frame (by rw [hint]; omega), hint]
      · next hnext =>
        have hend := rangeLength_eq_zero hzero (not_notPast_of_addWord? hnext limit)
        obtain rfl : count = 0 := by omega
        rfl
    rw [wordLoop, dif_pos hgoes, intLoop, hrest, Int64.ofInt_toInt]

/-! ## What happens in a loop -/

/-- A round begins: the variable of the loop is made anew, and it holds the integer of the
round. -/
def Begins (slot : Nat) (i : Int) (before after : Frame × Machine) : Prop :=
  ∃ n : Int64, n.toInt = i ∧
    (declareLocal slot (.int n) before.1).run.run before.2 = (.ok after.1, after.2) ∧
    (slot < before.1.locals.size → after.1.read after.2.heap slot = .int n)

section

variable (slot : Nat) (body : Frame → Run (Flow × Frame)) (start step : Int)

/-- Some rounds, each of which ends normally.  The variable of the `k`-th one, counted from zero,
starts with `start + k * step`. -/
inductive Rounds (c : Frame × Machine) : Nat → Frame × Machine → Prop
  | none : Rounds c 0 c
  | next {k : Nat} {c₁ c₂ : Frame × Machine} {frame : Frame} {m : Machine} : Rounds c k c₁ →
    Begins slot (start + k * step) c₁ c₂ →
    (body c₂.1).run.run c₂.2 = (.ok (.normal, frame), m) → Rounds c (k + 1) (frame, m)

/-- A loop of `count` rounds ends after the last of them, or earlier, with the first round that
does not end normally. -/
inductive LoopEnds (count : Nat) (c : Frame × Machine) : Except Stop (Flow × Frame) × Machine → Prop
  /-- There are no more rounds. -/
  | finished {frame : Frame} {m : Machine} : Rounds slot body start step c count (frame, m) →
    LoopEnds count c (.ok (.normal, frame), m)
  /-- A round breaks off. -/
  | left {k : Nat} {c₁ c₂ : Frame × Machine} {frame : Frame} {m : Machine} : k < count →
    Rounds slot body start step c k c₁ → Begins slot (start + k * step) c₁ c₂ →
    (body c₂.1).run.run c₂.2 = (.ok (.leave, frame), m) →
    LoopEnds count c (.ok (.normal, frame), m)
  /-- A round returns. -/
  | returned {k : Nat} {c₁ c₂ : Frame × Machine} {values : List Value} {frame : Frame}
    {m : Machine} : k < count →
    Rounds slot body start step c k c₁ → Begins slot (start + k * step) c₁ c₂ →
    (body c₂.1).run.run c₂.2 = (.ok (.ret values, frame), m) →
    LoopEnds count c (.ok (.ret values, frame), m)
  /-- A round fails. -/
  | failed {k : Nat} {c₁ c₂ : Frame × Machine} {stop : Stop} {m : Machine} : k < count →
    Rounds slot body start step c k c₁ → Begins slot (start + k * step) c₁ c₂ →
    (body c₂.1).run.run c₂.2 = (.error stop, m) → LoopEnds count c (.error stop, m)

end

section

variable {slot : Nat} {body : Frame → Run (Flow × Frame)} {start step : Int}

/-- The frame and the machine after a variable was made. -/
def declared (slot : Nat) (v : Value) (frame : Frame) (m : Machine) : Frame × Machine :=
  ((frame.declare m.heap slot v).1, m.setHeap (frame.declare m.heap slot v).2)

theorem run_declareLocal (slot : Nat) (v : Value) (frame : Frame) (m : Machine) :
    (declareLocal slot v frame).run.run m =
      (.ok (declared slot v frame m).1, (declared slot v frame m).2) :=
  rfl

theorem begins_declared {i : Int} (hfits : Fits i) (frame : Frame) (m : Machine) :
    Begins slot i (frame, m) (declared slot (.int (Int64.ofInt i)) frame m) :=
  ⟨Int64.ofInt i, toInt_ofInt_of_fits hfits, run_declareLocal ..,
    fun hslot => Frame.read_declare_self hslot _ _⟩

/-- **The loop.**  After some rounds, the rest of a loop that counts its rounds. -/
theorem loopEnds_intLoop {count : Nat} {c : Frame × Machine}
    (hfits : ∀ k : Nat, k < count → Fits (start + k * step)) (rest : Nat) :
    ∀ (k : Nat) (frame : Frame) (m : Machine), k + rest = count →
      Rounds slot body start step c k (frame, m) →
      LoopEnds slot body start step count c
        ((intLoop slot body step rest (start + k * step) frame).run.run m) := by
  induction rest with
  | zero =>
    intro k frame m hcount hrounds
    obtain rfl : k = count := hcount
    exact .finished hrounds
  | succ rest ih =>
    intro k frame m hcount hrounds
    have hlt : k < count := by omega
    have hbegins : Begins slot (start + k * step) (frame, m) _ :=
      begins_declared (hfits k hlt) frame m
    rw [intLoop, run_bind, run_declareLocal]
    dsimp only
    generalize declared slot (.int (Int64.ofInt (start + k * step))) frame m = c₂ at hbegins
    rw [run_bind]
    -- the round that comes next decides whether there are more
    cases hbody : (body c₂.1).run.run c₂.2 with
    | mk result m₁ =>
      cases result with
      | error stop => exact .failed hlt hrounds hbegins hbody
      | ok found =>
        obtain ⟨flow, frame₁⟩ := found
        cases flow with
        | normal =>
          have hnext : start + k * step + step = start + ((k + 1 : Nat) : Int) * step := by
            rw [Int.natCast_add, Int.add_mul]
            omega
          dsimp only [afterRound]
          rw [hnext]
          exact ih (k + 1) frame₁ m₁ (by omega) (.next hrounds hbegins hbody)
        | leave => exact .left hlt hrounds hbegins hbody
        | ret values => exact .returned hlt hrounds hbegins hbody

/-- A loop runs out of time only if its body does. -/
theorem LoopEnds.ne_exhausted {count : Nat} {c : Frame × Machine}
    {r : Except Stop (Flow × Frame) × Machine} (h : LoopEnds slot body start step count c r)
    (hbody : ∀ frame m, ((body frame).run.run m).1 ≠ .error .exhausted) :
    r.1 ≠ .error .exhausted := by
  cases h with
  | finished => exact nofun
  | left => exact nofun
  | returned => exact nofun
  | @failed k c₁ c₂ stop m _ _ _ hrun =>
    intro heq
    exact hbody c₂.1 c₂.2 (by rw [hrun, ← heq])

end

/-- **Loops with an integer limit.**  A step of zero is an error before the first round.  Otherwise
the rounds are those of the integers `start + k * step` that are not past the limit in exact
arithmetic, in this order and each once, and each round begins with a new variable that holds its
integer.  The loop ends earlier only with a round that breaks off, returns or fails.  So it always
ends, and it is the loop that tests each machine integer and checks each addition for overflow. -/
theorem rangeLoop_of_int_limit (slot : Nat) (body : Frame → Run (Flow × Frame)) (rounds : Nat)
    (start limit step : Int64) (frame : Frame) (m : Machine) :
    let loop := rangeLoop slot body rounds (.int start (.int limit) step) frame
    if step = 0 then loop.run.run m = (.error (.error .zeroStep), m)
    else (∃ count : Nat,
        (∀ k : Nat, k < count ↔ if 0 < step then start.toInt + k * step.toInt ≤ limit.toInt
          else limit.toInt ≤ start.toInt + k * step.toInt) ∧
        LoopEnds slot body start.toInt step.toInt count (frame, m) (loop.run.run m)) ∧
      ((∀ frame m, ((body frame).run.run m).1 ≠ .error .exhausted) →
        (loop.run.run m).1 ≠ .error .exhausted) ∧
      loop = wordLoop slot body limit step start frame := by
  intro loop
  split
  · next hstep =>
    simp only [loop, rangeLoop, if_pos hstep]
    rfl
  · next hstep =>
    have hzero : step.toInt ≠ 0 := fun h => hstep (Int64.toInt_inj.mp h)
    have hsign : 0 < step ↔ 0 < step.toInt := Int64.lt_iff_toInt_lt
    have hloop : loop = intLoop slot body step.toInt
        (rangeLength start.toInt limit.toInt step.toInt) start.toInt frame := by
      simp only [loop, rangeLoop, if_neg hstep, intLimit]
      rfl
    have hcount := lt_rangeLength_iff hzero start.toInt limit.toInt
    have hends : LoopEnds slot body start.toInt step.toInt
        (rangeLength start.toInt limit.toInt step.toInt) (frame, m) (loop.run.run m) := by
      have hall : LoopEnds slot body start.toInt step.toInt _ (frame, m) _ :=
        loopEnds_intLoop (fun k hk => fits_of_notPast ((hcount k).mp hk)) _ 0 frame m
          (Nat.zero_add _) .none
      rw [hloop]
      simpa using hall
    refine ⟨⟨_, fun k => ?_, hends⟩, hends.ne_exhausted, ?_⟩
    · rw [hcount, NotPast]
      simp only [hsign]
    · rw [hloop, wordLoop_eq_intLoop slot body limit hstep _ start frame rfl]

/-- A loop that ends with the last machine integer has two rounds from the one before it, although
the body writes to the variable, and the addition that would overflow is not made. -/
theorem rangeLoop_of_int_limit_last :
    let body := fun frame => do return (Flow.normal, ← writeLocal 0 (.int 0) frame)
    let frame : Frame := ⟨0, #[.plain .nil], [], #[], []⟩
    let loop := rangeLoop 0 body 0
      (.int (Int64.maxValue - 1) (.int Int64.maxValue) 1) frame
    LoopEnds 0 body 9223372036854775806 1 2 (frame, .empty) (loop.run.run .empty) ∧
      (loop.run.run .empty).1 ≠ .error .exhausted := by
  intro body frame loop
  obtain ⟨⟨count, hcount, hends⟩, hstops, -⟩ := rangeLoop_of_int_limit 0 body 0
    (Int64.maxValue - 1) Int64.maxValue 1 frame .empty
  have hsecond : 1 < count := (hcount 1).mpr (by decide)
  have hthird : ¬ 2 < count := fun h => absurd ((hcount 2).mp h) (by decide)
  obtain rfl : count = 2 := by omega
  exact ⟨hends, hstops fun _ _ => nofun⟩

end AdaptiveScript
