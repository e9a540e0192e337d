import AdaptiveScript.Proofs.Linking.Dispatch

/-!
# What a run does at call sites

Whatever code runs, call sites change in two ways only: sites are made, and calls go through
them.  `Machine.Trace` records the order in which this happens, without the code: a run is a
sequence of changes that are quiet at all sites (`Machine.Quiet`) and of calls, each taken up
to where it starts a body (`Linking.Dispatch`).  The body of a call is the rest of the trace,
so calls within calls need no further rule.

Every run has a trace (`Ends.trace`), and what holds of a site after every step of a trace
holds of it all along a run.
-/

namespace AdaptiveScript
namespace Machine

/-- One machine comes from another by changes that are quiet at call sites and by calls. -/
inductive Trace : Machine → Machine → Prop
  | refl (m : Machine) : Trace m m
  | quiet {m m₁ m' : Machine} : m.Evolves m₁ → m.Quiet m₁ → Trace m₁ m' → Trace m m'
  | call {m m₁ m' : Machine} {engine : EngineId} {id : Nat} {static : List Ty} {truncate : Bool}
    {callee : Value} {args : List Value} {result : Except Stop Linking.Start} :
    m.Sound → m.sites.Has id static truncate →
    Linking.Dispatch (m.recordCall engine id callee args) engine id callee args result m₁ →
    m.Prepares m₁ → Trace m₁ m' → Trace m m'

namespace Trace

theorem trans {a b c : Machine} (hab : a.Trace b) (hbc : b.Trace c) : a.Trace c := by
  induction hab with
  | refl => exact hbc
  | quiet hev hquiet _ ih => exact .quiet hev hquiet (ih hbc)
  | call h hsite hdispatch hprep _ ih => exact .call h hsite hdispatch hprep (ih hbc)

theorem of_quiet {m m' : Machine} (hev : m.Evolves m') (hquiet : m.Quiet m') : m.Trace m' :=
  .quiet hev hquiet (.refl m')

end Trace
end Machine
end AdaptiveScript
