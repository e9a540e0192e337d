import AdaptiveScript.Config
import AdaptiveScript.Ty

/-!
# The relinking policy

Two counters per call site decide how it is linked.  `relinks` counts published links:
once it reaches the configured limit, a link no longer binds a single function but all
closures of a prototype.  `typeChanges` counts the links whose argument types, or the
source of these types, differ from those of the link before: once it reaches its limit,
the site stops trusting the types of the arguments it is given.  Neither decision is ever
taken back.
-/

namespace AdaptiveScript

/-- What a published link is guarded by. -/
inductive GuardKind where
  /-- One function. -/
  | identity
  /-- All closures of one prototype. -/
  | prototype
  deriving DecidableEq, Repr

namespace GuardKind

/-- The name of a guard. -/
def text : GuardKind → String
  | .identity => "Identity"
  | .prototype => "Prototype"

end GuardKind

/-- Where the argument types of a link come from. -/
inductive TypeSource where
  /-- From the code around the call, all of them known. -/
  | static
  /-- From the arguments of the call. -/
  | runtime
  /-- From the code around the call, some of them unknown. -/
  | generic
  deriving DecidableEq, Repr

namespace TypeSource

/-- The name of a source. -/
def text : TypeSource → String
  | .static => "Static"
  | .runtime => "Runtime"
  | .generic => "Generic"

end TypeSource

namespace Linking

/-- The counters of a call site are 32 bits wide and stay at the largest number. -/
def succ32 (n : Nat) : Nat :=
  min (n + 1) (UInt32.size - 1)

/-- What a call site remembers of its links. -/
structure History where
  /-- How many links were published. -/
  relinks : Nat
  /-- How many of them changed the argument types or their source. -/
  typeChanges : Nat
  /-- Whether the types of the arguments given are still trusted. -/
  trusting : Bool
  /-- The guard of the last link. -/
  guard : Option GuardKind
  /-- The argument types of the last link and their source. -/
  last : Option (TypeSource × List Ty)
  deriving DecidableEq, Repr

namespace History

/-- A site that was never linked. -/
def fresh : History :=
  ⟨0, 0, true, none, none⟩

/-- The argument types of the last link. -/
def lastTypes? (history : History) : Option (List Ty) :=
  history.last.map Prod.snd

end History

/-- How a link is to be made. -/
structure Plan where
  /-- Whether to bind a single function. -/
  identity : Bool
  /-- Where the argument types come from. -/
  source : TypeSource
  /-- The argument types. -/
  types : List Ty
  deriving DecidableEq, Repr

/-- The plan for the next link of a site, given the types known around the call and those
of the arguments. -/
def plan (history : History) (config : Config) (static runtime : List Ty) : Plan :=
  let identity := history.relinks < config.relinkLimit
  if static.all Ty.isKnown then ⟨identity, .static, static⟩
  else if history.trusting then ⟨identity, .runtime, runtime⟩
  else ⟨identity, .generic, static⟩

namespace History

/-- Whether a plan changes the argument types or their source. -/
def isChange (history : History) (plan : Plan) : Bool :=
  match history.last with
  | some last => last != (plan.source, plan.types)
  | none => false

/-- The history after a link was published under a plan. -/
def record (history : History) (config : Config) (plan : Plan) (guard : GuardKind) : History :=
  let changed := history.isChange plan
  let typeChanges := if changed then succ32 history.typeChanges else history.typeChanges
  { relinks := succ32 history.relinks
    typeChanges
    trusting := history.trusting && !(changed && config.typeChangeLimit ≤ typeChanges)
    guard := some guard
    last := some (plan.source, plan.types) }

end History
end Linking
end AdaptiveScript
