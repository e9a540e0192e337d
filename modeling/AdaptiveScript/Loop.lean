import AdaptiveScript.Error

/-!
# Numeric loops

A numeric loop runs over integers when its start and its step are integers, and over
floats otherwise.  An integer loop may have a float limit, which is rounded towards the
start; what is out of the range of integers is replaced by the nearest integer.

The number of rounds of an integer loop is known when it starts, so the loop never
overflows and always ends.
-/

namespace AdaptiveScript

/-- The operands of a numeric loop. -/
inductive Range where
  /-- A loop over integers; its limit may be a float. -/
  | int (start : Int64) (limit : Value) (step : Int64)
  | float (start limit step : Float)

namespace Range

/-- The range that three values stand for; start is blamed first, then limit, then step. -/
def ofValues (start limit step : Value) : Except RuntimeError Range :=
  match start.asFloat?, limit.asFloat?, step.asFloat? with
  | none, _, _ => .error (.loopOperand .start)
  | some _, none, _ => .error (.loopOperand .limit)
  | some _, some _, none => .error (.loopOperand .step)
  | some s, some l, some d =>
    match start, step with
    | .int a, .int b => .ok (.int a limit b)
    | _, _ => .ok (.float s l d)

end Range

/-- The nearest integer that fits a machine word. -/
def clampInt (n : Int) : Int64 :=
  Int64.ofInt (max Int64.minValue.toInt (min Int64.maxValue.toInt n))

/-- The last integer that a loop in the direction of `step` may reach.  There is none if
the limit is NaN. -/
def intLimit (limit : Value) (step : Int64) : Except RuntimeError (Option Int64) :=
  match limit with
  | .int n => .ok (some n)
  | .float x =>
    match Binary64.reading x with
    | .nan => .ok none
    | .negInfinity => .ok (some Int64.minValue)
    | .posInfinity => .ok (some Int64.maxValue)
    | .finite _ => .ok (some (clampInt (if 0 < step then Binary64.floor x else Binary64.ceil x)))
  | _ => .error (.loopOperand .limit)

/-- How many integers there are from `start` to `limit`, `step` apart. -/
def rangeLength (start limit step : Int) : Nat :=
  if 0 < step then (if start ≤ limit then ((limit - start) / step).toNat + 1 else 0)
  else if step < 0 then (if limit ≤ start then ((start - limit) / (-step)).toNat + 1 else 0)
  else 0

/-- Whether a float loop has another round. -/
def floatGoesOn (x limit step : Float) : Bool :=
  (Binary64.order step 0.0 == some .gt && BinOp.holdsPartial .le (Binary64.order x limit))
    || (Binary64.order step 0.0 == some .lt && BinOp.holdsPartial .ge (Binary64.order x limit))

end AdaptiveScript
