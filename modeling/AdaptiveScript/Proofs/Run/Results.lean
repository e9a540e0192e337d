import AdaptiveScript.Proofs.Run.Transparency

/-!
# Return types

Code that is made for a signature comes with types of its results, and the types of the
results of any call of a prototype are found once and then remembered.  Callers count on
them.  This module says how far they may (`results_of_fair`): what a run returns at some
place, or nil if it returns less, is of the type at this place, whenever the types are
looked at.

There is one exception.  A return may pass on the results of a call of which nothing is
known.  Analysis takes this call to have one result, and fills up with nil if another return
has more.  The call may well have more results than one, so a type nil after the first place
means nothing if some return passes results on (`results_of_fair_relay`).
-/

namespace AdaptiveScript

/-! ## An example -/

namespace Operation

/-- A program with a function of two results, and one that passes on the results of its second
argument if its first argument holds. -/
def makeRelay : List Operation :=
  [.addPrototype "pair" [] [] [] [.ret [.literal (.int 1), .literal (.int 2)]],
    .addPrototype "relay" ["c", "g"] [] [] [.branch (.slot 0) [.ret [.call (.slot 1) []]]
      [.ret [.literal (.int 1), .literal .nil]]],
    .addEngine .default, .addFunction "pair" (.closure ⟨⟨1, "pair"⟩, [], 0⟩),
    .addFunction "relay" (.closure ⟨⟨2, "relay"⟩, [], 0⟩)]

theorem allValid_makeRelay : AllValid .empty makeRelay := by
  refine ⟨⟨?_, nofun⟩, ⟨?_, nofun⟩, trivial, trivial, trivial, trivial⟩ <;>
    simp [Stmt.BlockEvery, Stmt.Every, Stmt.Scoped, Stmt.operands, Expr.Scoped, Expr.mentions,
      Expr.listMentions]

end Operation

/-- A program without upvalues that reads locals only when they are assigned is fair. -/
theorem Machine.fair_of_all {m : Machine}
    (h : m.program.prototypes.all (fun proto => proto.readsAssigned && proto.upvalues.isEmpty)
      = true) : m.Fair := by
  have hall := Array.all_eq_true_iff_forall_mem.mp h
  simp only [Bool.and_eq_true, Array.isEmpty_iff] at hall
  exact ⟨Array.all_eq_true_iff_forall_mem.mpr fun proto hproto => (hall proto hproto).1,
    Machine.kept_of_upvalues fun proto hproto => (hall proto hproto).2⟩

/-! ## Results -/

namespace Specialization.ResultsOk

variable {spec : Specialization} {proto : Prototype} {m : Machine} {vs : List Value}

/-- The results are as the types say that come with the code. -/
theorem admits_own (h : spec.ResultsOk proto m vs) {later : Machine} (hlater : m.Advances later)
    {i : Nat} {type : Ty} (htype : spec.returns[i]? = some type) :
    later.Admits type (vs[i]?.getD .nil) ∨ 0 < i ∧ type = .nil ∧ proto.PassesOn := by
  have hfits := h.own hlater.grows hlater.sound i
  rwa [Machine.FitsAt, htype, Option.getD_some] at hfits

/-- The results are as the types say that are found for the prototype. -/
theorem admits_found (h : spec.ResultsOk proto m vs) {later : Machine} (hlater : m.Advances later)
    {ref : PrototypeRef} (hid : spec.proto.id = ref.id) {maxIterations : Nat} {types : List Ty}
    {k : Knowledge} (hfind : (Inference.returnTypesOf later.program maxIterations ref).run
      later.knowledge = (types, k)) {i : Nat} (hi : spec.signature.truncate = true → i = 0)
    {type : Ty} (htype : types[i]? = some type) :
    type.admits k.shapes later.heap (vs[i]?.getD .nil) = true ∨
      0 < i ∧ type = .nil ∧ proto.PassesOn := by
  have hgives := Inference.returnTypesOf_sound later.program maxIterations ref later.knowledge
    hlater.sound.knowledge
  have hknown := hlater.trans (.setKnowledge hlater.sound hgives.evolves)
  have hfound := hgives.post
  rw [hfind] at hknown hfound
  rcases hfound with hfound | rfl
  · rw [← hid] at hfound
    have hfits := h.found hknown.grows hknown.sound hfound i hi
    rwa [Machine.FitsAt, htype, Option.getD_some] at hfits
  · -- nothing is known about the results
    cases i with
    | zero =>
      cases htype
      exact .inl (Ty.admits_unknown _ _ _)
    | succ i => cases htype

end Specialization.ResultsOk

/-- **Return types are sound.**  Take a specialization that is made in any machine, under any
signature whose types of upvalues the program supports: it declares them or seals the cells.
Enter it at any later time for a closure of its prototype, and let this return some values
without breaking a promise of the program.  From then on, they are of the types that come
with the specialization, place by place, and of those that are found for the prototype with
any bound on the iterations; if only one result is kept, the latter is said about this one.
Only a type nil after the first place may be wrong, if a return of the prototype passes on
the results of a call. -/
theorem results_of_fair {m m₁ m₂ m' m'' : Machine} (hm : Machine.empty.Becomes m)
    {engine : EngineId} {pref : PrototypeRef} {proto : Prototype} {types upvalues : List Ty}
    {truncate : Bool} {spec : Specialization}
    (hvalid : (Operation.specialize engine pref types upvalues truncate).Valid m)
    (hproto : m.program.prototype? pref = some proto)
    (hspec : (Linking.specialize engine pref types upvalues truncate).run.run m = (.ok spec, m₁))
    (hsupports : proto.Supports m₁.shapes spec.signature.upvalues) (hlater : m₁.Becomes m₂)
    {ref : FunctionRef} {closure : Closure} (hclosure : m₂.heap.closureOf? ref = some closure)
    (hid : closure.proto.id = pref.id) {runner : EngineId} {depth rounds : Nat}
    {args vs : List Value}
    (hrun : (spec.enter (answer depth) rounds runner closure.cells args >>=
      Attempt.results).run.run m₂ = (.ok vs, m'))
    (hfair : m'.Fair) (hafter : m'.Becomes m'') :
    (∀ i type, spec.returns[i]? = some type →
      m''.Admits type (vs[i]?.getD .nil) ∨ 0 < i ∧ type = .nil ∧ proto.PassesOn) ∧
    ∀ maxIterations found k,
      (Inference.returnTypesOf m''.program maxIterations pref).run m''.knowledge = (found, k) →
      ∀ i type, (spec.signature.truncate = true → i = 0) → found[i]? = some type →
        type.admits k.shapes m''.heap (vs[i]?.getD .nil) = true ∨
          0 < i ∧ type = .nil ∧ proto.PassesOn := by
  have hsound := (hm.advances Machine.sound_empty).sound
  have hyields := Linking.yields_specialize hsound engine hproto truncate hvalid.1 hvalid.2
  obtain ⟨-, hspecId, hok⟩ := hyields.post (congrArg Prod.fst hspec)
  have hprep := hyields.evolves.prepares
  rw [hspec] at hok hprep
  have hadvances := hlater.advances hprep.sound
  have hproto₂ : m₂.program.prototype? closure.proto = some proto := by
    rw [Program.prototype?, hid, ← Program.prototype?]
    exact (hprep.evolves.grows.trans hadvances.grows).program.prototype? hproto
  have hentered : spec.Passes m₂.shapes m₂.heap closure.cells args →
      spec.Entered m₂ ref closure proto args := fun hpasses =>
    ⟨hadvances.sound, hok.mono hadvances.grows hprep.sound.forest hadvances.sound.forest,
      hclosure, hproto₂, hspecId.trans hid.symm,
      hsupports.mono hadvances.grows.shapes hprep.sound.forest hadvances.sound.forest, hpasses⟩
  have henter := refines_enter (.of_answered (answered_answer depth)) hadvances.sound hentered
    (fun hno : False => hno.elim) rounds runner
  rw [Refines, hrun] at henter
  have hresults : spec.ResultsOk proto m' vs := henter.post rfl hfair
  have hlast := hafter.advances henter.evolves.sound
  exact ⟨fun i type htype => hresults.admits_own hlast htype,
    fun maxIterations found k hfind i type hi htype =>
      hresults.admits_found hlast hspecId hfind hi htype⟩

/-- The second type is nil and the second result is not, since a return passes results on. -/
theorem results_of_fair_relay :
    let m := Operation.run .empty Operation.makeRelay
    ∃ spec proto m₁ m',
      (Linking.specialize 0 ⟨2, "relay"⟩ [.unknown, .unknown] [] false).run.run m =
        (.ok spec, m₁) ∧
      (spec.enter (answer 2) 2 0 [] [.bool true, .function ⟨0, "pair"⟩] >>=
        Attempt.results).run.run m₁ = (.ok [.int 1, .int 2], m') ∧
      m'.Fair ∧ spec.returns = [.unknown, .nil] ∧ ¬ m'.Admits .nil (.int 2) ∧
      m.program.prototype? ⟨2, "relay"⟩ = some proto ∧ proto.PassesOn := by
  intro m
  have hm : Machine.empty.Becomes m :=
    .operate (.refl _) (.of_operations (fun _ _ => trivial) Operation.allValid_makeRelay)
  obtain ⟨proto, hproto⟩ : ∃ proto, m.program.prototype? ⟨2, "relay"⟩ = some proto := ⟨_, rfl⟩
  have hvalid : (Operation.specialize 0 ⟨2, "relay"⟩ [.unknown, .unknown] [] false).Valid m := by
    simp [Operation.Valid, Ty.Has]
  generalize hpair : (Linking.specialize 0 ⟨2, "relay"⟩ [.unknown, .unknown] [] false).run.run m =
    made
  have hmade : made.1.toOption.map (fun spec =>
      let ran := (spec.enter (answer 2) 2 0 [] [.bool true, .function ⟨0, "pair"⟩] >>=
        Attempt.results).run.run made.2
      (spec.returns, spec.signature.upvalues, ran.1,
        ran.2.program.prototypes.all fun proto => proto.readsAssigned && proto.upvalues.isEmpty)) =
      some ([.unknown, .nil], [], .ok [.int 1, .int 2], true) := by
    rw [← hpair]
    decide +kernel
  have hclosure : made.2.heap.closureOf? ⟨1, "relay"⟩ = some ⟨⟨2, "relay"⟩, [], 0⟩ := by
    rw [← hpair]
    decide +kernel
  clear_value m
  obtain ⟨result, m₁⟩ := made
  cases result with
  | error stop => cases hmade
  | ok spec =>
    simp only [Except.toOption, Option.map_some, Option.some.injEq, Prod.mk.injEq] at hmade
    obtain ⟨hreturns, hupvalues, hvalues, hall⟩ := hmade
    generalize hrun : (spec.enter (answer 2) 2 0 [] [.bool true, .function ⟨0, "pair"⟩] >>=
      Attempt.results).run.run m₁ = ran at hvalues hall
    obtain ⟨result, m'⟩ := ran
    cases hvalues
    have hsupports : proto.Supports m₁.shapes spec.signature.upvalues := by
      rw [hupvalues]
      exact fun i type hnone => by cases hnone
    have hfair := Machine.fair_of_all hall
    obtain ⟨hown, -⟩ := results_of_fair hm hvalid hproto hpair hsupports (.refl m₁) hclosure rfl
      hrun hfair (.refl m')
    have hwrong : ¬ m'.Admits .nil (.int 2) := fun hno => by cases hno
    refine ⟨spec, proto, m₁, m', rfl, hrun, hfair, hreturns, hwrong, hproto, ?_⟩
    rcases hown 1 .nil (by rw [hreturns]; rfl) with hno | ⟨-, -, hpasses⟩
    · exact (hwrong hno).elim
    · exact hpasses

end AdaptiveScript
