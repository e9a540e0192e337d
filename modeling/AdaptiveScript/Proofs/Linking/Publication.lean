import AdaptiveScript.Proofs.Linking.Dispatch
import AdaptiveScript.Proofs.Linking.Policy

/-!
# What the linker does at call sites

The linker either publishes a link at the site that it was entered for, under the plan of
that site, or it leaves all sites as they were (`effect_link`).  It publishes nothing when it
fails, and nothing when it calls an overload once.

`Link.Made` says which link is published for which callee: it binds the function itself if
the plan says so, and otherwise all closures of its prototype, by code for the planned types
and the upvalue types that these closures share.
-/

namespace AdaptiveScript
namespace Linking

/-! ## Publishing a link -/

/-- A site is as it was, or it was just made. -/
def Spared (m : Machine) (id : SiteId) (m' : Machine) : Prop :=
  m'.sites.get id = m.sites.get id ∨
    m.sites.sites.size < id ∧ ∃ static truncate, m'.sites.get id = .fresh static truncate

theorem Spared.of_quiet {m m' : Machine} (hquiet : m.Quiet m') (id : Nat) : Spared m id m' := by
  by_cases hold : id ≤ m.sites.sites.size
  · exact .inl (hquiet.sites.get_eq hold)
  · rcases hquiet.sites.get_cases id with hget | ⟨static, truncate, hget, -⟩
    · exact .inl hget
    · exact .inr ⟨Nat.lt_of_not_le hold, static, truncate, hget⟩

/-- Nothing happened at call sites except that one site was replaced. -/
structure Publishes (m : Machine) (id : SiteId) (next : Site) (m' : Machine) : Prop where
  site : m'.sites.get id = next
  others : ∀ {other : Nat}, other ≠ id → Spared m other m'
  calls : m'.calls = m.calls

/-- What is quiet may happen before. -/
theorem Publishes.of_quiet {m m₁ m' : Machine} {id : SiteId} {next : Site} (hquiet : m.Quiet m₁)
    (h : Publishes m₁ id next m') : Publishes m id next m' where
  site := h.site
  others {other} hne := by
    rcases h.others hne with hget | ⟨hlt, hfresh⟩
    · rcases Spared.of_quiet hquiet other with hsame | ⟨hlt, hfresh⟩
      · exact .inl (hget.trans hsame)
      · exact .inr ⟨hlt, by rw [hget]; exact hfresh⟩
    · exact .inr ⟨Nat.lt_of_le_of_lt hquiet.sites.size_le hlt, hfresh⟩
  calls := h.calls.trans hquiet.calls

/-- Publishing a link replaces the site. -/
theorem publishes_published {m : Machine} (engine : EngineId) {id : Nat} {static : List Ty}
    {truncate : Bool} (hsite : m.sites.Has id static truncate) (plan : Plan) (link : Link) :
    Publishes m id ((m.sites.get id).publish (m.engine engine).config plan link)
      (published m engine id plan link) := by
  unfold published
  dsimp only
  generalize (m.sites.get id).publish (m.engine engine).config plan link = next
  obtain ⟨journal, hnotes⟩ := foldl_note (publishEvents id (m.sites.get id).history next.history plan
    link) (({ m with sites := m.sites.set id next } : Machine).modifyEngine engine fun e =>
      e.count Stats.addRelink)
  rw [hnotes]
  refine ⟨?_, fun {other} hne => .inl (Sites.get_set_of_ne m.sites hne next), rfl⟩
  exact Sites.get_set hsite.pos hsite.le next

/-! ## Which link is published -/

/-- The link that the linker publishes for a callee under a plan. -/
inductive Link.Made (m : Machine) (truncate : Bool) (plan : Plan) : Value → Link → Prop
  /-- One closure by itself. -/
  | closure {ref : FunctionRef} {closure : Closure} {spec : Specialization} :
    m.heap.closureOf? ref = some closure → plan.identity = true →
    Made m truncate plan (.function ref) ⟨.identity ref, .instance spec closure.cells⟩
  /-- All closures of a prototype. -/
  | prototype {ref : FunctionRef} {closure : Closure} {proto : Prototype}
    {spec : Specialization} :
    m.heap.closureOf? ref = some closure → plan.identity = false →
    m.program.prototype? closure.proto = some proto →
    spec.signature = .forPrototype m.shapes proto plan.types proto.staticUpvalueTypes truncate →
    Made m truncate plan (.function ref) ⟨.prototype closure.proto.id, .prototype spec⟩
  /-- One overload of a host function. -/
  | host {ref : FunctionRef} {overloads : List Overload} {index : Nat} :
    m.heap.function? ref = some (.host overloads) →
    Overload.select? overloads plan.types = some index →
    Made m truncate plan (.function ref) ⟨.identity ref, .host ref index⟩
  /-- Another callable of the host. -/
  | foreign {ref : FunctionRef} {action : Action} :
    m.heap.function? ref = some (.foreign action) →
    Made m truncate plan (.function ref) ⟨.identity ref, .foreign ref⟩

/-- What a run of the linker does at call sites. -/
inductive Effect (m : Machine) (engine : EngineId) (id : SiteId) (plan : Plan) :
    Value → Except Stop Outcome → Machine → Prop
  /-- Nothing, since it fails. -/
  | failed {callee : Value} {stop : Stop} {m' : Machine} : m.Quiet m' →
    Effect m engine id plan callee (.error stop) m'
  /-- Nothing, since an overload of a host function is called once. -/
  | once {ref : FunctionRef} {overloads : List Overload} {index : Nat} {m' : Machine} :
    m.heap.function? ref = some (.host overloads) → m.Quiet m' →
    Effect m engine id plan (.function ref) (.ok (.oneShot ref index)) m'
  /-- A link is published. -/
  | published {callee : Value} {link : Link} {m' : Machine} :
    link.Made m (m.sites.get id).truncate plan callee →
    Publishes m id ((m.sites.get id).publish (m.engine engine).config plan link) m' →
    Effect m engine id plan callee (.ok (.linked link)) m'

/-- A compilation comes first. -/
theorem Effect.bind {α : Type} {m : Machine} {engine : EngineId} {id : SiteId} {plan : Plan}
    {callee : Value} {x : Run α} {f : α → Run Outcome} {ok : Prop} {Q : α → Machine → Prop}
    (hx : Yields Machine.Compiles m x ok Q)
    (hf : ∀ a m₁, m.Compiles m₁ → Q a m₁ →
      Effect m engine id plan callee ((f a).run.run m₁).1 ((f a).run.run m₁).2) :
    Effect m engine id plan callee ((x >>= f).run.run m).1 ((x >>= f).run.run m).2 := by
  have hcompiles := hx.evolves
  have hpost {a : α} := hx.post (a := a)
  rw [run_bind]
  cases hrun : x.run.run m with
  | mk result m₁ =>
    rw [hrun] at hcompiles hpost
    cases result with
    | error stop => exact .failed hcompiles.quiet
    | ok a => exact hf a m₁ hcompiles (hpost rfl)

section Effects

variable {m : Machine} (h : m.Sound) (engine : EngineId) {id : Nat} {static : List Ty}
  {truncate : Bool} (hsite : m.sites.Has id static truncate) {plan : Plan} {ref : FunctionRef}

include hsite

/-- Publishing, after a compilation. -/
theorem effect_publish {m₁ : Machine} (hcompiles : m.Compiles m₁) {callee : Value} {link : Link}
    (hmade : link.Made m (m.sites.get id).truncate plan callee) :
    Effect m engine id plan callee ((publish engine id plan link).run.run m₁).1
      ((publish engine id plan link).run.run m₁).2 := by
  have hpublishes := publishes_published engine (hcompiles.quiet.sites.grows hsite) plan link
  rw [hcompiles.quiet.sites.get_eq hsite.le, hcompiles.config] at hpublishes
  rw [run_publish]
  exact .published hmade (hpublishes.of_quiet hcompiles.quiet)

include h

/-- Linking a closure. -/
theorem effect_linkClosure (hplan : ∀ type ∈ plan.types, type.Has m.shapes) {closure : Closure}
    (hclosure : m.heap.closureOf? ref = some closure) :
    Effect m engine id plan (.function ref) ((linkClosure engine id plan ref closure).run.run m).1
      ((linkClosure engine id plan ref closure).run.run m).2 := by
  rw [linkClosure, run_get_bind]
  dsimp only
  cases hproto : m.program.prototype? closure.proto with
  | none =>
    split <;> exact Effect.bind (yields_specialize_none h engine hproto _ _ _) fun _ _ _ => False.elim
  | some proto =>
    split
    · next hidentity =>
      refine Effect.bind (yields_specialize h engine hproto (m.sites.get id).truncate hplan
        (has_identityUpvalueTypes h (m.engine engine).registry hproto)) fun spec m₁ hcompiles _ => ?_
      unfold construct
      split
      · exact effect_publish engine hsite hcompiles (.closure hclosure hidentity)
      · exact .failed hcompiles.quiet
    · next hidentity =>
      refine Effect.bind (yields_specialize h engine hproto (m.sites.get id).truncate hplan
        (has_staticUpvalueTypes h hproto)) fun spec m₁ hcompiles hspec => ?_
      exact effect_publish engine hsite hcompiles
        (.prototype hclosure (by simpa using hidentity) hproto hspec.1)

/-- Linking a host function. -/
theorem effect_linkHost {overloads : List Overload}
    (hhost : m.heap.function? ref = some (.host overloads)) (args : List Value) :
    Effect m engine id plan (.function ref)
      ((linkHost engine id plan ref overloads args).run.run m).1
      ((linkHost engine id plan ref overloads args).run.run m).2 := by
  unfold linkHost
  cases hselect : Overload.select? overloads plan.types with
  | some index => exact effect_publish engine hsite (.refl h) (.host hhost hselect)
  | none =>
    dsimp only
    rw [run_get_bind]
    cases Overload.selectValues? m.shapes m.heap overloads args with
    | none => exact .failed (.refl m)
    | some index => exact .once hhost (.of_same rfl rfl)

/-- **The linker** publishes a link under the plan of the site, or changes no site. -/
theorem effect_link (callee : Value) (args : List Value) :
    let planned := Linking.plan (m.sites.get id).history (m.engine engine).config
      (m.sites.get id).static (args.map (m.typeOf engine))
    Effect m engine id planned callee ((link engine id callee args).run.run m).1
      ((link engine id callee args).run.run m).2 := by
  intro planned
  cases callee with
  | function ref =>
    rw [link, run_get_bind]
    dsimp only
    cases hfunction : m.heap.function? ref with
    | none => exact .failed (.refl m)
    | some f =>
      cases f with
      | closure closure =>
        exact effect_linkClosure h engine hsite (has_plan h engine id _ _ args)
          (by rw [Heap.closureOf?, hfunction])
      | host overloads => exact effect_linkHost h engine hsite hfunction args
      | foreign action => exact effect_publish engine hsite (.refl h) (.foreign hfunction)
  | _ => exact .failed (.refl m)

/-- That the linker was entered is remembered, which changes no site. -/
theorem effect_enter (before : Ghost State) (callee : Value) (args : List Value) :
    let planned := Linking.plan (m.sites.get id).history (m.engine engine).config
      (m.sites.get id).static (args.map (m.typeOf engine))
    Effect m engine id planned callee ((enter before engine id callee args).run.run m).1
      ((enter before engine id callee args).run.run m).2 := by
  have heffect := effect_link h engine hsite callee args
  unfold enter
  rw [run_remembering]
  generalize (link engine id callee args).run.run m = r at heffect
  obtain ⟨result, m'⟩ := r
  cases heffect with
  | failed hquiet => exact .failed ⟨hquiet.sites, hquiet.calls⟩
  | once hhost hquiet => exact .once hhost ⟨hquiet.sites, hquiet.calls⟩
  | published hmade hpublishes =>
    exact .published hmade ⟨hpublishes.site, hpublishes.others, hpublishes.calls⟩

end Effects
end Linking
end AdaptiveScript
