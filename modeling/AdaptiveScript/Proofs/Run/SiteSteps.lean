import AdaptiveScript.Proofs.Linking.Publication
import AdaptiveScript.Proofs.Run.Operation
import Mathlib.Logic.Relation

/-!
# What happens at one call site

Seen from one call site, operations and runs are a sequence of steps of two kinds
(`Machine.SiteStep`): either the site is spared, or a call through the site enters the
linker.  Calls through the site that are taken by the link in place are of the first kind,
and so are calls through other sites and everything else.

Only the operation that links a site by hand is left out: it enters the linker without a
call.

* `Machine.Leads.siteSteps`: operations, and the calls within calls that they lead to, are
  such steps.
-/

namespace AdaptiveScript
namespace Linking

/-! ## The linker and the sites -/

section Relinks

variable {m m₀ m₁ : Machine} {engine : EngineId} {id : Nat} {callee : Value} {args : List Value}

theorem Relinks.sites (h : Relinks m engine id callee args m₀) : m₀.sites = m.sites := by
  cases h <;> rfl

theorem Relinks.calls (h : Relinks m engine id callee args m₀) : m₀.calls = m.calls := by
  cases h <;> rfl

theorem Relinks.config (h : Relinks m engine id callee args m₀) :
    (m₀.engine engine).config = (m.engine engine).config := by
  cases h with
  | unlinked => rfl
  | guardFailed =>
    exact Machine.config_modifyEngine m engine (f := fun e => e.count Stats.addGuardFailure)
      (fun _ => rfl) engine
  | rejected =>
    exact Machine.config_modifyEngine m engine (f := fun e => e.count Stats.addDeoptimization)
      (fun _ => rfl) engine

/-- The linker makes no calls. -/
theorem Effect.calls {plan : Plan} {result : Except Stop Outcome}
    (h : Effect m engine id plan callee result m₁) : m₁.calls = m.calls := by
  cases h with
  | failed hquiet => exact hquiet.calls
  | once _ hquiet => exact hquiet.calls
  | published _ hpublishes => exact hpublishes.calls

/-- The linker spares all sites but the one that it was entered for. -/
theorem Effect.spared {plan : Plan} {result : Except Stop Outcome}
    (h : Effect m engine id plan callee result m₁) {other : Nat} (hne : other ≠ id) :
    Spared m other m₁ := by
  cases h with
  | failed hquiet => exact .of_quiet hquiet other
  | once _ hquiet => exact .of_quiet hquiet other
  | published _ hpublishes => exact hpublishes.others hne

/-- What a call that enters the linker does at call sites. -/
theorem Relinks.effect (h : m.Sound) {static : List Ty} {truncate : Bool}
    (hsite : m.sites.Has id static truncate) (hrelinks : Relinks m engine id callee args m₀)
    {result : Except Stop Outcome}
    (hrun : (enter (.of m.toState) engine id callee args).run.run m₀ = (result, m₁)) :
    Effect m₀ engine id (plan (m.sites.get id).history (m.engine engine).config
      (m.sites.get id).static (args.map (m₀.typeOf engine))) callee result m₁ := by
  have hprep := hrelinks.prepares h
  have heffect := effect_enter hprep.sound engine (hprep.evolves.grows.sites hsite)
    (.of m.toState) callee args
  rw [hrun] at heffect
  rwa [hrelinks.config, hrelinks.sites] at heffect

/-- A call is remembered before anything else happens. -/
theorem Dispatch.calls (h : m.Sound) {static : List Ty} {truncate : Bool}
    (hsite : m.sites.Has id static truncate) {result : Except Stop Start}
    (hdispatch : Dispatch m engine id callee args result m₁) : m₁.calls = m.calls := by
  cases hdispatch with
  | inPlace => rfl
  | linked hrelinks hrun => exact (hrelinks.effect h hsite hrun).calls.trans hrelinks.calls
  | refused hrelinks hrun => exact (hrelinks.effect h hsite hrun).calls.trans hrelinks.calls
  | failed hrelinks hrun => exact (hrelinks.effect h hsite hrun).calls.trans hrelinks.calls

end Relinks
end Linking

/-! ## Steps -/

namespace Machine

/-- What happens at a call site. -/
inductive SiteStep (id : SiteId) : Machine → Machine → Prop
  /-- The site is spared. -/
  | spared {m m' : Machine} : m.Advances m' → (∀ call, m.calls call → m'.calls call) →
    Linking.Spared m id m' → SiteStep id m m'
  /-- A call that was just made through the site enters the linker. -/
  | relinked {m m₀ m' : Machine} {engine : EngineId} {static : List Ty} {truncate : Bool}
    {callee : Value} {args : List Value} {result : Except Stop Linking.Outcome} :
    m.Sound → m.Advances m' → m.sites.Has id static truncate →
    m.calls ⟨m.moment, engine, (m.engine engine).config, id, callee, args⟩ →
    Linking.Relinks m engine id callee args m₀ →
    (Linking.enter (.of m.toState) engine id callee args).run.run m₀ = (result, m') →
    SiteStep id m m'

namespace SiteStep

variable {id : Nat} {m m' : Machine}

theorem advances (h : SiteStep id m m') : m.Advances m' := by
  cases h with
  | spared hadvances => exact hadvances
  | relinked _ hadvances => exact hadvances

theorem calls (h : SiteStep id m m') {call : SiteCall} (hcall : m.calls call) :
    m'.calls call := by
  cases h with
  | spared _ hcalls => exact hcalls call hcall
  | relinked hm _ hsite _ hrelinks hrun =>
    rw [(hrelinks.effect hm hsite hrun).calls, hrelinks.calls]
    exact hcall

theorem of_quiet (hadvances : m.Advances m') (hquiet : m.Quiet m') : SiteStep id m m' :=
  .spared hadvances (fun _ hcall => by rw [hquiet.calls]; exact hcall) (.of_quiet hquiet id)

/-- The linker is entered for another site. -/
theorem of_effect {m₀ : Machine} {engine : EngineId} {other : Nat} {plan : Linking.Plan}
    {callee : Value} {result : Except Stop Linking.Outcome} (hadvances : m.Advances m')
    (hsites : m₀.sites = m.sites) (hcalls : m₀.calls = m.calls)
    (heffect : Linking.Effect m₀ engine other plan callee result m') (hne : id ≠ other) :
    SiteStep id m m' := by
  refine .spared hadvances (fun _ hcall => ?_) ?_
  · rw [heffect.calls, hcalls]
    exact hcall
  · have hspared := heffect.spared hne
    unfold Linking.Spared at hspared ⊢
    rwa [hsites] at hspared

/-- A call through some site, up to where it starts a body. -/
theorem of_dispatch (h : m.Sound) {engine : EngineId} {other : Nat} {static : List Ty}
    {truncate : Bool} (hsite : m.sites.Has other static truncate) {callee : Value}
    {args : List Value} {result : Except Stop Linking.Start} (hadvances : m.Advances m')
    (hcall : m.calls ⟨m.moment, engine, (m.engine engine).config, other, callee, args⟩)
    (hdispatch : Linking.Dispatch m engine other callee args result m') : SiteStep id m m' := by
  -- the three ways through the linker are alike here
  have hlinker {m₀ : Machine} {outcome : Except Stop Linking.Outcome}
      (hrelinks : Linking.Relinks m engine other callee args m₀)
      (hrun : (Linking.enter (.of m.toState) engine other callee args).run.run m₀ =
        (outcome, m')) :
      SiteStep id m m' := by
    by_cases heq : id = other
    · subst heq
      exact .relinked h hadvances hsite hcall hrelinks hrun
    · exact .of_effect hadvances hrelinks.sites hrelinks.calls (hrelinks.effect h hsite hrun) heq
  cases hdispatch with
  | inPlace => exact .of_quiet hadvances (.refl m)
  | linked hrelinks hrun => exact hlinker hrelinks hrun
  | refused hrelinks hrun => exact hlinker hrelinks hrun
  | failed hrelinks hrun => exact hlinker hrelinks hrun

end SiteStep

/-! ## Sequences of steps -/

/-- What happens at a call site over time. -/
abbrev SiteSteps (id : SiteId) : Machine → Machine → Prop :=
  Relation.ReflTransGen (SiteStep id)

theorem SiteSteps.advances {id : Nat} {m m' : Machine} (h : m.Sound) (hsteps : SiteSteps id m m') :
    m.Advances m' := by
  induction hsteps with
  | refl => exact .refl h
  | tail _ hstep ih => exact ih.trans hstep.advances

theorem Trace.siteSteps (id : Nat) {m m' : Machine} (htrace : m.Trace m') : SiteSteps id m m' := by
  induction htrace with
  | refl => exact .refl
  | quiet hev hquiet _ ih => exact .head (.of_quiet (.of_evolves hev) hquiet) ih
  | @call m m₁ _ engine other static truncate callee args _ h hsite hdispatch hprep _ ih =>
    have hrecord := Prepares.recordCall h engine other callee args
    have hmade : SiteStep id m (m.recordCall engine other callee args) :=
      .spared (.of_evolves hrecord.evolves) (fun _ hcall => .inl hcall) (.inl rfl)
    have hgrows := hprep.evolves.grows
    have hadvances : (m.recordCall engine other callee args).Advances m₁ :=
      ⟨hprep.sound, hgrows.program, hgrows.knowledge, hgrows.heap, hgrows.sites, hgrows.moments⟩
    exact .head hmade (.head (.of_dispatch hrecord.sound hsite hadvances (.inr rfl) hdispatch) ih)

end Machine

namespace Operation

/-- An operation does not link a site by hand. -/
def Spares (id : SiteId) : Operation → Prop
  | .link _ site _ _ => site ≠ id
  | _ => True

/-- Operations other than links and calls do nothing at call sites. -/
theorem quiet {m : Machine} (h : m.Sound) {op : Operation} (hvalid : op.Valid m)
    (hlink : ∀ engine site callee args, op ≠ .link engine site callee args)
    (hcall : ∀ depth request, op ≠ .call depth request) : m.Quiet (op.apply m) := by
  cases op with
  | specialize engine ref args upvalues truncate =>
    exact (compiles_specialize h engine ref truncate hvalid.1 hvalid.2).quiet
  | addSite static truncate => exact ⟨.add m.sites truncate hvalid, rfl⟩
  | link engine site callee args => exact absurd rfl (hlink engine site callee args)
  | call depth request => exact absurd rfl (hcall depth request)
  | addTable shape => cases shape <;> exact .of_same rfl rfl
  | _ => exact .of_same rfl rfl

/-- What an operation is for a call site that it does not link by hand. -/
theorem siteSteps {m : Machine} (h : m.Sound) {op : Operation} (hvalid : op.Valid m) {id : Nat}
    (hspares : op.Spares id) : Machine.SiteSteps id m (op.apply m) := by
  have hadvances := advances h hvalid
  by_cases hlink : ∃ engine site callee args, op = .link engine site callee args
  · obtain ⟨engine, site, callee, args, rfl⟩ := hlink
    have heffect := Linking.effect_link h engine ⟨hvalid.1, hvalid.2, rfl, rfl⟩ callee args
    exact .single (.of_effect hadvances rfl rfl heffect (Ne.symm hspares))
  by_cases hcall : ∃ depth request, op = .call depth request
  · obtain ⟨depth, request, rfl⟩ := hcall
    exact (answered_answer depth h hvalid).trace.siteSteps id
  · have hquiet := quiet h hvalid (fun _ _ _ _ heq => hlink ⟨_, _, _, _, heq⟩)
      fun _ _ heq => hcall ⟨_, _, heq⟩
    exact .single (.of_quiet hadvances hquiet)

end Operation

/-- **Operations and runs** are sequences of steps at each call site that is not linked by
hand. -/
theorem Machine.Leads.siteSteps {id : Nat} {m m' : Machine} (h : m.Sound)
    (hleads : Leads (Operation.Spares id) m m') : SiteSteps id m m' := by
  induction hleads with
  | refl => exact .refl
  | step hbefore hspares hvalid ih =>
    exact ih.trans (Operation.siteSteps (hbefore.advances h).sound hvalid hspares)
  | within _ htrace ih => exact ih.trans (htrace.siteSteps id)

end AdaptiveScript
