import AdaptiveScript.Linking.Policy
import AdaptiveScript.Signature
import AdaptiveScript.Error

/-!
# The journal

Everything noteworthy that analysis, compilation and linking do is written down as an
event, in order.  An event has a level, and one function words all of them.
-/

namespace AdaptiveScript

/-- How noteworthy an event is. -/
inductive Level where
  | warn
  | debug
  | trace
  deriving DecidableEq, Repr

namespace Level

/-- The name of a level. -/
def text : Level → String
  | .warn => "WARN"
  | .debug => "DEBUG"
  | .trace => "TRACE"

/-- Whether events of a level are shown when those of the given level are. -/
def isShownAt : Level → Level → Bool
  | .warn, _ => true
  | .debug, .warn => false
  | .debug, _ => true
  | .trace, .trace => true
  | .trace, _ => false

end Level

/-- Noteworthy events. -/
inductive Event where
  /-- An engine was made. -/
  | engineMade (config : Config)
  /-- A shape was frozen into a layout. -/
  | shapeCompiled (shape : ShapeId) (slots : Nat) (spills : Bool)
  /-- Two shapes were merged into a third. -/
  | shapesMerged (left right merged : ShapeId)
  /-- Inference reached a fixed point. -/
  | converged (function : String) (iterations : Nat)
  /-- Inference gave up on a fixed point. -/
  | widened (function : String) (iterations : Nat)
  /-- Code for a node of a body is emitted. -/
  | emitting (form function : String)
  /-- A prototype is compiled for a signature. -/
  | specializing (function : String) (signature : Signature)
  /-- Compiled code is ready to run. -/
  | loaded (routine : String) (sites : Nat) (returns : List Ty)
  /-- A bound target turned its arguments down. -/
  | rejected (site : Nat) (target : String) (reason : RuntimeError)
  /-- A callee is not the one a site is bound to. -/
  | guardFailed (site : Nat) (callee : Value)
  /-- An overload is called once without being bound. -/
  | oneShot (site : Nat) (function : String) (overload : Nat) (types : List Ty)
  /-- A site was bound to a target. -/
  | linked (site : Nat) (target : String) (types : List Ty) (guard : GuardKind)
      (source : TypeSource) (relinks : Nat)
  /-- A site stopped trusting the types of its arguments. -/
  | distrusted (typeChanges : Nat)
  /-- A site stopped binding single functions. -/
  | downgraded (relinks : Nat)

namespace Event

/-- The level of an event. -/
def level : Event → Level
  | .engineMade _ => .debug
  | .shapeCompiled _ _ _ => .debug
  | .shapesMerged _ _ _ => .trace
  | .converged _ _ => .trace
  | .widened _ _ => .warn
  | .emitting _ _ => .trace
  | .specializing _ _ => .debug
  | .loaded _ _ _ => .debug
  | .rejected _ _ _ => .trace
  | .guardFailed _ _ => .trace
  | .oneShot _ _ _ _ => .trace
  | .linked _ _ _ _ _ _ => .debug
  | .distrusted _ => .debug
  | .downgraded _ => .debug

/-- The wording of an event. -/
def message : Event → String
  | .engineMade config =>
    "engine: relink_limit=" ++ toString config.relinkLimit ++ " type_change_limit="
      ++ toString config.typeChangeLimit ++ " max_inference_iterations="
      ++ toString config.maxInferenceIterations
  | .shapeCompiled shape slots spills =>
    s!"compiled shape #{shape} with {slots} slots (fallback map: {spills})"
  | .shapesMerged left right merged => s!"merged shapes #{left} and #{right} into #{merged}"
  | .converged function iterations =>
    s!"inference for {function} converged after {iterations} iteration(s)"
  | .widened function iterations =>
    s!"inference for {function} did not converge after {iterations} iterations; "
      ++ "widening locals to Unknown"
  | .emitting form function => s!"emit {form} in {function}"
  | .specializing function signature => "specializing " ++ function ++ " for " ++ signature.text
  | .loaded routine sites returns =>
    s!"loaded {routine} ({sites} call sites, returns " ++ Ty.tupleText returns ++ ")"
  | .rejected site target reason =>
    s!"site #{site}: {target} rejected its arguments (" ++ reason.message ++ "); relinking"
  | .guardFailed site callee => s!"site #{site}: guard failed for " ++ callee.text
  | .oneShot site function overload types =>
    s!"site #{site}: one-shot call of {function}[{overload}] for " ++ Ty.tupleText types
  | .linked site target types guard source relinks =>
    s!"site #{site}: linked {target} for " ++ Ty.tupleText types ++ " (" ++ guard.text
      ++ " guard, " ++ source.text ++ s!" types, relink {relinks})"
  | .distrusted typeChanges =>
    s!"call site stops trusting run-time types after {typeChanges} type changes"
  | .downgraded relinks => s!"call site downgraded to prototype guard after {relinks} relinks"

end Event
end AdaptiveScript
