import AdaptiveScript.Program
import AdaptiveScript.Shape

/-!
# Signatures

Code is specialized per signature: the types of the arguments, the types of the upvalues,
and whether the caller keeps one result only.  Table types in a signature are named by
the representatives of their shapes, so that two names for one shape are one signature.
-/

namespace AdaptiveScript

/-- What specialized code depends on. -/
structure Signature where
  /-- The types of the arguments. -/
  args : List Ty
  /-- The types of the upvalues. -/
  upvalues : List Ty
  /-- Whether callers use the first result only. -/
  truncate : Bool
  deriving DecidableEq, Repr

namespace Signature

/-- The signature of the given types, shapes resolved. -/
def of (shapes : Shapes) (args upvalues : List Ty) (truncate : Bool) : Signature :=
  ⟨args.map (Ty.canonical shapes), upvalues.map (Ty.canonical shapes), truncate⟩

/-- Exactly `count` types: surplus ones are dropped and missing ones are nil. -/
def fitArgs (count : Nat) (args : List Ty) : List Ty :=
  args.take count ++ List.replicate (count - args.length) .nil

/-- The signature for calling a prototype with arguments of the given types. -/
def forPrototype (shapes : Shapes) (proto : Prototype) (args upvalues : List Ty)
    (truncate : Bool) : Signature :=
  of shapes (fitArgs proto.paramCount args) upvalues truncate

/-- How a signature is written. -/
def text (s : Signature) : String :=
  Ty.tupleText s.args
    ++ (if s.upvalues.isEmpty then "" else " upvalues " ++ Ty.tupleText s.upvalues)
    ++ (if s.truncate then " -> 1" else "")

theorem length_fitArgs (count : Nat) (args : List Ty) : (fitArgs count args).length = count := by
  simp only [fitArgs, List.length_append, List.length_take, List.length_replicate]
  omega

end Signature
end AdaptiveScript
