import AdaptiveScript.Heap
import AdaptiveScript.Linking.Policy
import AdaptiveScript.Specialization

/-!
# Call sites

Every call in specialized code goes through a call site of its own.  A linked site holds
a link: a target, and a guard that says for which callees the target may run.  Links are
only ever replaced as a whole.
-/

namespace AdaptiveScript
namespace Linking

/-- For which callees a target may run. -/
inductive Guard where
  /-- This function. -/
  | identity (function : FunctionRef)
  /-- All closures of this prototype. -/
  | prototype (id : Nat)
  deriving DecidableEq, Repr

namespace Guard

/-- The kind of a guard. -/
def kind : Guard → GuardKind
  | .identity _ => .identity
  | .prototype _ => .prototype

/-- Whether a guard lets a callee pass. -/
def holds (heap : Heap) : Guard → Value → Bool
  | .identity bound, .function ref => bound.id == ref.id
  | .prototype id, .function ref =>
    match heap.closureOf? ref with
    | some c => c.proto.id == id
    | none => false
  | _, _ => false

end Guard

/-- What a link runs. -/
inductive Target where
  /-- A specialization with the cells of one closure. -/
  | instance (spec : Specialization) (cells : List CellId)
  /-- A specialization for every closure of its prototype, with the cells of the callee. -/
  | prototype (spec : Specialization)
  /-- One overload of a host function. -/
  | host (function : FunctionRef) (overload : Nat)
  /-- A callable of the host. -/
  | foreign (function : FunctionRef)

namespace Target

/-- The name of what a link runs. -/
def name : Target → String
  | .instance spec _ => spec.name
  | .prototype spec => spec.name
  | .host function overload => function.name ++ "[" ++ toString overload ++ "]"
  | .foreign function => function.name

/-- The specialization a link runs. -/
def specialization? : Target → Option Specialization
  | .instance spec _ => some spec
  | .prototype spec => some spec
  | .host _ _ => none
  | .foreign _ => none

end Target

/-- A target with its guard. -/
structure Link where
  /-- For which callees the target may run. -/
  guard : Guard
  /-- What runs. -/
  target : Target

/-- What linking comes to. -/
inductive Outcome where
  /-- A link was published. -/
  | linked (link : Link)
  /-- One overload of a host function is called this once. -/
  | oneShot (function : FunctionRef) (overload : Nat)

namespace Outcome

/-- What is to run. -/
def target : Outcome → Target
  | .linked link => link.target
  | .oneShot function overload => .host function overload

end Outcome

/-- A call site. -/
structure Site where
  /-- The types of the arguments as the code around the call knows them. -/
  static : List Ty
  /-- Whether the call keeps one result only. -/
  truncate : Bool
  /-- What the site remembers of its links. -/
  history : History
  /-- The link that is in place. -/
  link : Option Link

namespace Site

/-- A site that was never linked. -/
def fresh (static : List Ty) (truncate : Bool) : Site :=
  ⟨static, truncate, .fresh, none⟩

end Site

/-- All call sites, numbered from one. -/
structure Sites where
  /-- The sites in order. -/
  sites : Array Site

namespace Sites

/-- No sites. -/
def empty : Sites :=
  ⟨#[]⟩

/-- The site with a number. -/
def get (sites : Sites) : SiteId → Site
  | 0 => .fresh [] false
  | index + 1 => sites.sites.getD index (.fresh [] false)

/-- Replace the site with a number. -/
def set (sites : Sites) (id : SiteId) (site : Site) : Sites :=
  match id with
  | 0 => sites
  | index + 1 => ⟨sites.sites.setIfInBounds index site⟩

/-- Make a site. -/
def add (sites : Sites) (site : Site) : SiteId × Sites :=
  (sites.sites.size + 1, ⟨sites.sites.push site⟩)

@[simp] theorem get_add (sites : Sites) (site : Site) :
    (sites.add site).2.get (sites.add site).1 = site := by
  simp [get, add]

theorem get_set_self {sites : Sites} {index : Nat} (h : index < sites.sites.size) (site : Site) :
    (sites.set (index + 1) site).get (index + 1) = site := by
  simp [get, set, h]

theorem get_set_of_ne (sites : Sites) {id other : SiteId} (h : other ≠ id) (site : Site) :
    (sites.set id site).get other = sites.get other := by
  cases id with
  | zero => rfl
  | succ i =>
    cases other with
    | zero => rfl
    | succ j =>
      have hij : i ≠ j := fun e => h (by rw [e])
      simp [get, set, Array.getD_eq_getD_getElem?, hij]

end Sites
end Linking
end AdaptiveScript
