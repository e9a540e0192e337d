import AdaptiveScript.Proofs.Inference.Reading

/-!
# What the last pass leaves behind

The last pass of an analysis infers every expression of the body, and it does so under the types
of locals that the analysis ends with.  The types it infers need not be those that are inferred
afterwards: where the pass has to find return types, shapes may be merged behind it.  But merging
shapes concerns table types alone.  Which prototype a type names is the same before and after
(`Foreseen`), so the calls of the last pass ask for all return types that calls ask for under the
result.  What was found is remembered (`ReturnsOf.Remembers`).

Hence every expression of a body is settled once the body is analysed (`settled_of_holds`).
-/

namespace AdaptiveScript

/-! ## Prototypes that types name -/

namespace Ty

theorem prototype?_eq_some {type : Ty} {ref : PrototypeRef} :
    type.prototype? = some ref ↔ type = .function ref := by
  cases type <;> simp [prototype?]

/-- A join names a prototype if both types name that prototype. -/
theorem prototype?_join (a b : Ty) :
    (a.join b).prototype? = if a.prototype? = b.prototype? then a.prototype? else none := by
  unfold join
  by_cases h : a = b
  · rw [if_pos h, h, if_pos rfl]
  · rw [if_neg h]
    split
    · next hsame =>
      cases hproto : a.prototype? with
      | none => rfl
      | some ref =>
        rw [hproto] at hsame
        exact absurd
          ((prototype?_eq_some.mp hproto).trans (prototype?_eq_some.mp hsame.symm).symm) h
    · rfl

theorem prototype?_binaryType (op : BinOp) (left right : Ty) :
    (binaryType op left right).prototype? = none := by
  cases op <;> simp only [binaryType] <;> (repeat' split) <;> rfl

theorem prototype?_unaryType (op : UnOp) (operand : Ty) :
    (unaryType op operand).prototype? = none := by
  cases op with
  | neg => cases operand <;> rfl
  | not => rfl
  | len => rfl

end Ty

namespace Inference

open Learn (Gives)

/-! ## Return types are found once -/

/-- Return types that were asked for are looked up from then on, as long as nothing that is
remembered gets lost. -/
def ReturnsOf.Remembers (returnsOf : ReturnsOf) : Prop :=
  ∀ (ref : PrototypeRef) (k later : Knowledge),
    (∀ id types, ((returnsOf ref).run k).2.returns.lookup id = some types →
      later.returns.lookup id = some types) →
    (returnsOf ref).run later = (((returnsOf ref).run k).1, later)

theorem run_findReturns_later {returnsOf : ReturnsOf} {maxIterations : Nat} {proto : Prototype}
    {k later : Knowledge}
    (h : ∀ id types, ((findReturns returnsOf maxIterations proto).run k).2.returns.lookup id =
      some types → later.returns.lookup id = some types) :
    (findReturns returnsOf maxIterations proto).run later =
      (((findReturns returnsOf maxIterations proto).run k).1, later) := by
  cases hlookup : k.returns.lookup proto.ref.id with
  | some types =>
    rw [run_findReturns_of_known hlookup] at h ⊢
    exact run_findReturns_of_known (h _ _ hlookup) maxIterations
  | none =>
    rw [run_findReturns_of_none hlookup] at h ⊢
    refine run_findReturns_of_known (h _ _ ?_) maxIterations
    show List.lookup proto.ref.id ((proto.ref.id, _) :: _) = _
    rw [List.lookup_cons, beq_self_eq_true]

theorem remembers_returnTypesBelow (program : Program) (maxIterations bound : Nat) :
    (returnTypesBelow program maxIterations bound).Remembers := by
  induction bound with
  | zero => exact fun _ _ _ _ => rfl
  | succ bound ih =>
    intro ref k later h
    rw [returnTypesBelow] at h ⊢
    by_cases hid : ref.id = bound + 1
    · rw [if_pos hid] at h ⊢
      cases hproto : program.prototype? ref with
      | none => rfl
      | some proto =>
        rw [hproto] at h
        exact run_findReturns_later h
    · rw [if_neg hid] at h ⊢
      exact ih ref k later h

/-- The return types of a program are found once. -/
theorem remembers_returnTypesOf (program : Program) (maxIterations : Nat) :
    (returnTypesOf program maxIterations).Remembers :=
  remembers_returnTypesBelow program maxIterations program.size

/-! ## Expressions of the last pass -/

/-- What was inferred for an expression in the last pass, seen from the result: the type names the
prototype that the reading names, and the expression is settled. -/
structure Foreseen (returnsOf : ReturnsOf) (final : Stage) (e : Expr) (type : Ty) : Prop where
  prototype : type.prototype? = (reading returnsOf final e).prototype?
  settled : Settled returnsOf final e

/-- An expression without parts. -/
theorem Foreseen.atom {returnsOf : ReturnsOf} {final : Stage} {e : Expr} {type : Ty}
    (hparts : e.parts = []) (hcall : e.isCall = false)
    (hproto : type.prototype? = (reading returnsOf final e).prototype?) :
    Foreseen returnsOf final e type :=
  ⟨hproto, settled_of_parts hcall fun _ h => absurd (hparts ▸ h) List.not_mem_nil⟩

section

variable {program : Program} {bound : Nat} {returnsOf : ReturnsOf}
  (hret : returnsOf.Sound program bound) (hfound : returnsOf.Remembers)

include hret hfound

/-- Return types that are asked for in the last pass are those that are known under the result. -/
theorem gives_returnsOf (final : Stage) {k : Knowledge} (h : k.Sound program)
    (ref : PrototypeRef) :
    Gives program bound (returnsOf ref) k fun types after => after.Evolves program final.2 →
      types = ((returnsOf ref).run final.2).1 ∧ Knows returnsOf final ref := by
  have hgives := hret ref k h
  refine ⟨hgives.evolves, hgives.untouched, hgives.conserves, hgives.recalls, fun hev => ?_⟩
  have hlater : ∀ now : Knowledge, final.2.Alike now →
      (returnsOf ref).run now = (((returnsOf ref).run k).1, now) := by
    intro now hnow
    refine hfound ref k now fun id types hlookup => ?_
    rw [hnow.returns]
    exact hev.grows.returns hlookup
  have hfinal := hlater final.2 (.refl _)
  refine ⟨by rw [hfinal], fun now hnow => ?_⟩
  rw [hlater now hnow, hfinal]
  exact ⟨hnow, rfl⟩

theorem gives_callTypes_known (final : Stage) {k : Knowledge} (h : k.Sound program) (type : Ty) :
    Gives program bound (callTypes returnsOf type) k fun found after =>
      after.Evolves program final.2 →
        found = type.prototype?.map (fun ref => ((returnsOf ref).run final.2).1) ∧
          ∀ ref ∈ type.prototype?, Knows returnsOf final ref := by
  unfold callTypes
  cases type.prototype? with
  | none => exact .pure h fun _ => ⟨rfl, fun _ hnone => by cases hnone⟩
  | some ref =>
    refine (gives_returnsOf hret hfound final h ref).bind fun types k₁ hev₁ hknown =>
      .pure hev₁.sound fun hfinal => ?_
    obtain ⟨htypes, hknows⟩ := hknown hfinal
    exact ⟨by rw [htypes]; rfl, fun other hother => by cases hother; exact hknows⟩

end

/-- An analysis in its last pass: its locals and upvalues have the types of the result, and
return types are found as they are found for the result. -/
structure Closes (program : Program) (bound : Nat) (returnsOf : ReturnsOf) (ctx : Inference)
    (final : Stage) : Prop where
  sound : returnsOf.Sound program bound
  remembers : returnsOf.Remembers
  typing : ctx.typing = final.1.typing

section

variable {program : Program} {bound : Nat} {returnsOf : ReturnsOf} {ctx : Inference}
  {final : Stage}

mutual

/-- Inference of an expression in the last pass. -/
theorem foresees_infer (hlast : Closes program bound returnsOf ctx final) : ∀ (e : Expr)
    {k : Knowledge}, k.Sound program → ctx.typing.Has k.shapes → e.Scoped program k.shapes →
    Gives program bound (infer returnsOf ctx e) k fun type after =>
      after.Evolves program final.2 → Foreseen returnsOf final e type
  | .literal l, k, h, _, _ => by
    rw [infer]
    exact .pure h fun _ => .atom rfl rfl (by rw [reading])
  | .slot index, k, h, _, _ => by
    have hslot : ctx.varType index = final.1.varType index := congrArg (·.slot index) hlast.typing
    rw [infer, hslot]
    exact .pure h fun _ => .atom rfl rfl (by rw [reading])
  | .upvalue index, k, h, _, _ => by
    have hupvalue : ctx.upvalueType index = final.1.upvalueType index :=
      congrArg (·.upvalue index) hlast.typing
    rw [infer, hupvalue]
    exact .pure h fun _ => .atom rfl rfl (by rw [reading])
  | .global name, k, h, _, _ => by
    rw [infer]
    exact .pure h fun _ => .atom rfl rfl (by rw [reading])
  | .binary op left right, k, h, hctx, hscope => by
    obtain ⟨hl, hr⟩ := Expr.scoped_binary.1 hscope
    rw [infer]
    refine (foresees_infer hlast left h hctx hl).bind fun l k₁ hev₁ hleft => ?_
    refine (foresees_infer hlast right hev₁.sound (hctx.mono hev₁.grows.shapes)
      (hr.mono hev₁.grows.shapes)).bind fun r k₂ hev₂ hright => .pure hev₂.sound fun hfinal => ?_
    refine ⟨?_, settled_of_parts rfl fun part hpart => ?_⟩
    · rw [reading, Ty.prototype?_binaryType, Ty.prototype?_binaryType]
    · rcases List.mem_pair.mp hpart with rfl | rfl
      · exact (hleft (hev₂.trans hfinal)).settled
      · exact (hright hfinal).settled
  | .logical op left right, k, h, hctx, hscope => by
    obtain ⟨hl, hr⟩ := Expr.scoped_logical.1 hscope
    rw [infer]
    refine (foresees_infer hlast left h hctx hl).bind fun l k₁ hev₁ hleft => ?_
    refine (foresees_infer hlast right hev₁.sound (hctx.mono hev₁.grows.shapes)
      (hr.mono hev₁.grows.shapes)).bind fun r k₂ hev₂ hright => .pure hev₂.sound fun hfinal => ?_
    refine ⟨?_, settled_of_parts rfl fun part hpart => ?_⟩
    · rw [reading, Ty.prototype?_join, Ty.prototype?_join, (hleft (hev₂.trans hfinal)).prototype,
        (hright hfinal).prototype]
    · rcases List.mem_pair.mp hpart with rfl | rfl
      · exact (hleft (hev₂.trans hfinal)).settled
      · exact (hright hfinal).settled
  | .unary op operand, k, h, hctx, hscope => by
    rw [infer]
    refine (foresees_infer hlast operand h hctx (Expr.scoped_unary.1 hscope)).bind
      fun t k₁ hev₁ hoperand => .pure hev₁.sound fun hfinal => ?_
    refine ⟨?_, settled_of_parts rfl fun part hpart => ?_⟩
    · rw [reading, Ty.prototype?_unaryType, Ty.prototype?_unaryType]
    · rw [List.mem_singleton.mp hpart]
      exact (hoperand hfinal).settled
  | .index target key, k, h, hctx, hscope => by
    obtain ⟨ht, hk⟩ := Expr.scoped_index.1 hscope
    rw [infer]
    refine (foresees_infer hlast target h hctx ht).bind fun _ k₁ hev₁ htarget => ?_
    refine (foresees_infer hlast key hev₁.sound (hctx.mono hev₁.grows.shapes)
      (hk.mono hev₁.grows.shapes)).bind fun _ k₂ hev₂ hkey => .pure hev₂.sound fun hfinal => ?_
    refine ⟨by rw [reading], settled_of_parts rfl fun part hpart => ?_⟩
    rcases List.mem_pair.mp hpart with rfl | rfl
    · exact (htarget (hev₂.trans hfinal)).settled
    · exact (hkey hfinal).settled
  | .call callee args, k, h, hctx, hscope => by
    obtain ⟨hc, ha⟩ := Expr.scoped_call.1 hscope
    rw [infer]
    refine (foresees_infer hlast callee h hctx hc).bind fun type k₁ hev₁ hcallee => ?_
    refine (foresees_inferAll hlast args hev₁.sound (hctx.mono hev₁.grows.shapes)
      (ha.mono hev₁.grows.shapes)).bind fun _ k₂ hev₂ hargs => ?_
    refine (gives_callTypes_known hlast.sound hlast.remembers final hev₂.sound type).bind
      fun found k₃ hev₃ hknown => .pure hev₃.sound fun hfinal => ?_
    have hforeseen := hcallee (hev₂.trans (hev₃.trans hfinal))
    obtain ⟨hresults, hknows⟩ := hknown hfinal
    rw [hforeseen.prototype] at hresults hknows
    refine ⟨by rw [reading, hresults], ?_⟩
    exact settled_call hforeseen.settled (hargs (hev₃.trans hfinal)) hknows
  | .function ref captures, k, h, _, _ => by
    rw [infer]
    exact .pure h fun _ => .atom rfl rfl (by rw [reading])
  | .table shape entries, k, h, hctx, hscope => by
    obtain ⟨-, he⟩ := Expr.scoped_table.1 hscope
    rw [infer]
    refine (foresees_inferEntries hlast shape entries h hctx he).bind fun _ k₁ hev₁ hentries => ?_
    refine (Learn.gives_tableType hev₁.sound shape).mono fun type k₂ hev₂ htype hfinal => ?_
    -- the shape may be another one by then, but it is a shape
    refine ⟨by rw [reading, htype]; rfl, settled_of_parts rfl ?_⟩
    exact hentries (hev₂.trans hfinal)

theorem foresees_inferAll (hlast : Closes program bound returnsOf ctx final) :
    ∀ (es : List Expr) {k : Knowledge}, k.Sound program → ctx.typing.Has k.shapes →
    Expr.AllScoped program k.shapes es →
    Gives program bound (inferAll returnsOf ctx es) k fun _ after =>
      after.Evolves program final.2 → ∀ e ∈ es, Settled returnsOf final e
  | [], k, h, _, _ => by
    rw [inferAll]
    exact .pure h fun _ _ hmem => absurd hmem List.not_mem_nil
  | e :: es, k, h, hctx, hscope => by
    obtain ⟨he, hes⟩ := Expr.allScoped_cons.1 hscope
    rw [inferAll]
    refine (foresees_infer hlast e h hctx he).bind fun _ k₁ hev₁ hfirst => ?_
    refine (foresees_inferAll hlast es hev₁.sound (hctx.mono hev₁.grows.shapes)
      (hes.mono hev₁.grows.shapes)).bind fun _ k₂ hev₂ hrest => .pure hev₂.sound fun hfinal => ?_
    rw [List.forall_mem_cons]
    exact ⟨(hfirst (hev₂.trans hfinal)).settled, hrest hfinal⟩

theorem foresees_inferEntries (hlast : Closes program bound returnsOf ctx final)
    (shape : ShapeId) : ∀ (entries : List Entry) {k : Knowledge}, k.Sound program →
    ctx.typing.Has k.shapes → Expr.EntriesScoped program k.shapes entries →
    Gives program bound (inferEntries returnsOf ctx shape entries) k fun _ after =>
      after.Evolves program final.2 →
        ∀ part ∈ entries.flatMap Entry.parts, Settled returnsOf final part
  | [], k, h, _, _ => by
    rw [inferEntries]
    exact .pure h fun _ _ hmem => absurd hmem List.not_mem_nil
  | .named name value :: rest, k, h, hctx, hscope => by
    obtain ⟨hv, hrest⟩ := Expr.entriesScoped_named.1 hscope
    rw [inferEntries]
    refine (foresees_infer hlast value h hctx hv).bind fun t k₁ hev₁ hvalue => ?_
    refine (Learn.gives_amend hev₁.sound shape name t).bind fun _ k₂ hev₂ _ => ?_
    have hev := hev₁.trans hev₂
    refine (foresees_inferEntries hlast shape rest hev.sound (hctx.mono hev.grows.shapes)
      (hrest.mono hev.grows.shapes)).mono fun _ k₃ hev₃ hothers hfinal => ?_
    rw [List.flatMap_cons, Entry.parts, List.singleton_append, List.forall_mem_cons]
    exact ⟨(hvalue (hev₂.trans (hev₃.trans hfinal))).settled, hothers hfinal⟩
  | .keyed key value :: rest, k, h, hctx, hscope => by
    obtain ⟨hk, hv, hrest⟩ := Expr.entriesScoped_keyed.1 hscope
    rw [inferEntries]
    cases hkey : key.constantKey? with
    | some name =>
      refine (foresees_infer hlast value h hctx hv).bind fun t k₁ hev₁ hvalue => ?_
      refine (Learn.gives_amend hev₁.sound shape name t).bind fun _ k₂ hev₂ _ => ?_
      have hev := hev₁.trans hev₂
      refine (foresees_inferEntries hlast shape rest hev.sound (hctx.mono hev.grows.shapes)
        (hrest.mono hev.grows.shapes)).mono fun _ k₃ hev₃ hothers hfinal => ?_
      rw [List.flatMap_cons, Entry.parts, List.cons_append, List.singleton_append,
        List.forall_mem_cons, List.forall_mem_cons]
      -- a constant key is not inferred
      exact ⟨settled_of_constantKey? hkey, (hvalue (hev₂.trans (hev₃.trans hfinal))).settled,
        hothers hfinal⟩
    | none =>
      refine (foresees_infer hlast key h hctx hk).bind fun _ k₁ hev₁ hkeyed => ?_
      refine (foresees_infer hlast value hev₁.sound (hctx.mono hev₁.grows.shapes)
        (hv.mono hev₁.grows.shapes)).bind fun _ k₂ hev₂ hvalue => ?_
      refine (Learn.gives_amendUnknown hev₂.sound shape).bind fun _ k₃ hev₃ _ => ?_
      have hev := (hev₁.trans hev₂).trans hev₃
      refine (foresees_inferEntries hlast shape rest hev.sound (hctx.mono hev.grows.shapes)
        (hrest.mono hev.grows.shapes)).mono fun _ k₄ hev₄ hothers hfinal => ?_
      have hlate := hev₃.trans (hev₄.trans hfinal)
      rw [List.flatMap_cons, Entry.parts, List.cons_append, List.singleton_append,
        List.forall_mem_cons, List.forall_mem_cons]
      exact ⟨(hkeyed (hev₂.trans hlate)).settled, (hvalue hlate).settled, hothers hfinal⟩
  | .positional value :: rest, k, h, hctx, hscope => by
    obtain ⟨hv, hrest⟩ := Expr.entriesScoped_positional.1 hscope
    rw [inferEntries]
    refine (foresees_infer hlast value h hctx hv).bind fun _ k₁ hev₁ hvalue => ?_
    refine (Learn.gives_amendUnknown hev₁.sound shape).bind fun _ k₂ hev₂ _ => ?_
    have hev := hev₁.trans hev₂
    refine (foresees_inferEntries hlast shape rest hev.sound (hctx.mono hev.grows.shapes)
      (hrest.mono hev.grows.shapes)).mono fun _ k₃ hev₃ hothers hfinal => ?_
    rw [List.flatMap_cons, Entry.parts, List.singleton_append, List.forall_mem_cons]
    exact ⟨(hvalue (hev₂.trans (hev₃.trans hfinal))).settled, hothers hfinal⟩

end

end

/-! ## Statements of the last pass -/

section

variable (returnsOf : ReturnsOf)

theorem run_inferAll_nil (ctx : Inference) (k : Knowledge) :
    ((inferAll returnsOf ctx []).run k).2 = k := by
  rw [inferAll]
  rfl

theorem run_inferAll_cons (ctx : Inference) (e : Expr) (es : List Expr) (k : Knowledge) :
    ((inferAll returnsOf ctx (e :: es)).run k).2 =
      ((inferAll returnsOf ctx es).run ((infer returnsOf ctx e).run k).2).2 := by
  rw [inferAll]
  rfl

/-- What a return learns is what inference of its values learns. -/
theorem run_inferReturn (ctx : Inference) (values : List Expr) (k : Knowledge) :
    ((inferReturn returnsOf ctx values).run k).2 = ((inferAll returnsOf ctx values).run k).2 := by
  unfold inferReturn
  split
  · next e =>
    rw [run_inferAll_cons, run_inferAll_nil]
    cases e with
    | call callee args =>
      rw [infer]
      rfl
    | _ => rfl
  · rfl

theorem run_inferStep (ctx : Inference) (step : Option Expr) (k : Knowledge) :
    ((inferStep returnsOf ctx step).run k).2 =
      ((inferAll returnsOf ctx step.toList).run k).2 := by
  cases step with
  | none => rw [Option.toList, run_inferAll_nil]; rfl
  | some e => rw [Option.toList, run_inferAll_cons, run_inferAll_nil]; rfl

end

namespace Stage

variable {program : Program} {bound : Nat} {returnsOf : ReturnsOf} {base : Shapes}
  {stage final : Stage}

theorem Ok.evolves_assign (h : stage.Ok program base) (slot : Nat) {type : Ty}
    (htype : type.Has stage.2.shapes) :
    stage.2.Evolves program ((stage.1.assign slot type).run stage.2).2 := by
  have hassign : Gives program 0 _ _ _ := gives_assign h.sound h.has slot htype
  exact hassign.evolves

/-- A visit infers the operands of its statement; what comes after is at most an assignment. -/
theorem Ok.evolves_operands (hret : returnsOf.Sound program bound) (h : stage.Ok program base)
    {s : Stmt} (hs : s.Scoped program base) :
    ((inferAll returnsOf stage.1 s.operands).run stage.2).2.Evolves program
      (Inference.visit returnsOf stage s).2 := by
  have hlate : (Inference.visit returnsOf stage s).2.Sound program := (h.visit hret hs).sound
  cases s with
  | declare slot value =>
    cases value with
    | none =>
      rw [Stmt.operands, Option.toList, run_inferAll_nil]
      exact h.evolves_assign slot trivial
    | some e =>
      obtain ⟨hok, htype⟩ := h.inferred hret (hs e (List.mem_cons_self ..))
      rw [Stmt.operands, Option.toList, run_inferAll_cons, run_inferAll_nil]
      exact hok.evolves_assign slot htype
  | assign slot e =>
    obtain ⟨hok, htype⟩ := h.inferred hret (hs e (List.mem_cons_self ..))
    rw [Stmt.operands, run_inferAll_cons, run_inferAll_nil]
    exact hok.evolves_assign slot htype
  | forLoop slot start limit step body =>
    have hok₁ := (h.inferred hret (hs start (by simp [Stmt.operands]))).1
    have hok₂ := (hok₁.inferred hret (hs limit (by simp [Stmt.operands]))).1
    have hok₃ := hok₂.inferredStep hret fun e (he : e ∈ step.toList) =>
      hs e (by simp [Stmt.operands, he])
    rw [Stmt.operands, run_inferAll_cons, run_inferAll_cons, ← run_inferStep]
    exact hok₃.evolves_assign slot (has_loopType ..)
  | ret values =>
    rw [Stmt.operands, ← run_inferReturn]
    exact .refl hlate
  | setIndex target key value =>
    rw [Stmt.operands, run_inferAll_cons, run_inferAll_cons, run_inferAll_cons, run_inferAll_nil]
    exact .refl hlate
  | breakLoop =>
    rw [Stmt.operands, run_inferAll_nil]
    exact .refl hlate
  | _ =>
    rw [Stmt.operands, run_inferAll_cons, run_inferAll_nil]
    exact .refl hlate

/-- A visit of the last pass settles the operands of its statement. -/
theorem Ok.settled_visit (hlast : Closes program bound returnsOf stage.1 final)
    (h : stage.Ok program base) {s : Stmt} (hs : s.Scoped program base)
    (hev : (Inference.visit returnsOf stage s).2.Evolves program final.2) :
    ∀ operand ∈ s.operands, Settled returnsOf final operand := by
  have hscope : Expr.AllScoped program stage.2.shapes s.operands :=
    Expr.allScoped_of_forall fun e he => (hs e he).mono h.grows
  exact (foresees_inferAll hlast s.operands h.sound h.has.typing hscope).post
    ((h.evolves_operands hlast.sound hs).trans hev)

/-- The visits of the last pass settle all operands. -/
theorem Ok.settled_visits : ∀ (stmts : List Stmt) {stage : Stage},
    Closes program bound returnsOf stage.1 final → stage.Ok program base →
    (∀ s ∈ stmts, s.Scoped program base) →
    (stmts.foldl (Inference.visit returnsOf) stage).1.vars = stage.1.vars →
    (stmts.foldl (Inference.visit returnsOf) stage).2.Evolves program final.2 →
    ∀ s ∈ stmts, ∀ operand ∈ s.operands, Settled returnsOf final operand
  | [], _, _, _, _, _, _, _, hmem => absurd hmem List.not_mem_nil
  | s :: rest, stage, hlast, h, hscope, hvars, hev, t, hmem => by
    have hs := hscope s (List.mem_cons_self ..)
    have hrest : ∀ t ∈ rest, t.Scoped program base :=
      fun t ht => hscope t (List.mem_cons_of_mem _ ht)
    have hok := h.visit hlast.sound hs
    have hfirst := h.follows_visit hlast.sound hs
    have hothers := hok.follows_visits hlast.sound rest hrest
    -- a local that is as it was has not changed in between
    have hmid : (Inference.visit returnsOf stage s).1.vars = stage.1.vars :=
      hfirst.vars_eq hothers hvars
    rcases List.mem_cons.mp hmem with rfl | hmem
    · exact h.settled_visit hlast hs (hothers.evolves.trans hev)
    · have hclose : Closes program bound returnsOf (Inference.visit returnsOf stage s).1 final :=
        ⟨hlast.sound, hlast.remembers, (hfirst.advances.typing_eq hmid).trans hlast.typing⟩
      exact Ok.settled_visits rest hclose hok hrest (hvars.trans hmid.symm) hev t hmem

/-- A pass that changes no local settles all expressions of the body. -/
theorem Ok.settled_walked (hret : returnsOf.Sound program bound) (hfound : returnsOf.Remembers)
    {body : List Stmt} (hscope : Stmt.BlockEvery (Stmt.Scoped program base) body)
    {start outcome : Stage} (h : start.Ok program base)
    (hvars : (start.walked returnsOf body).1.vars = start.1.vars)
    (hagrees : outcome.1.Agrees (start.walked returnsOf body).1)
    (hshapes : outcome.2.shapes = (start.walked returnsOf body).2.shapes)
    (hreturns : outcome.2.returns = (start.walked returnsOf body).2.returns) {e : Expr}
    (he : Stmt.Holds body e) : Settled returnsOf outcome e := by
  obtain ⟨s, hs, operand, hoperand, hoccurs⟩ := he
  have hstmts := Stmt.blockEvery_iff.mp hscope
  have hwalked := (h.walked hret hscope).sound
  have hfollows := h.opened.follows_visits hret _ hstmts
  have hend : (start.walked returnsOf body).2 =
      ((Stmt.blockListed body).foldl (Inference.visit returnsOf) start.opened).2 := by
    rw [walked_eq]
  have hev : (start.walked returnsOf body).2.Evolves program outcome.2 :=
    .of_shapes hwalked (by rw [hshapes]; exact .refl hwalked.forest) hreturns
  rw [vars_walked] at hvars
  -- the pass begins with the types of locals that the result has
  have htyping : start.1.typing = outcome.1.typing := by
    have hlate := hfollows.advances.typing_eq hvars
    have hsame : (start.walked returnsOf body).1.typing =
        ((Stmt.blockListed body).foldl (Inference.visit returnsOf) start.opened).1.typing := by
      rw [walked_eq]
      dsimp only
      split <;> rfl
    exact hlate.symm.trans (hsame.symm.trans hagrees.typing.symm)
  have hclose : Closes program bound returnsOf start.opened.1 outcome := ⟨hret, hfound, htyping⟩
  have hsettled := Ok.settled_visits _ hclose h.opened hstmts hvars (hend ▸ hev) s hs
  exact (hsettled operand hoperand).of_occurs hoccurs

end Stage

/-- **After an analysis everything is settled**: under its result, no expression of the body asks
for return types that are not remembered. -/
theorem settled_of_holds {program : Program} {k : Knowledge} (h : k.Sound program) {index : Nat}
    {proto : Prototype} (hproto : program.prototypes[index]? = some proto) {args upvalues : List Ty}
    (hargs : ∀ t ∈ args, t.Has k.shapes) (hupvalues : ∀ t ∈ upvalues, t.Has k.shapes)
    (limit maxIterations : Nat) {e : Expr} (he : Stmt.Holds proto.body e) :
    let returnsOf := returnTypesOf program limit
    let start := ofTypes proto args upvalues maxIterations
    Settled returnsOf ((analyze returnsOf proto.body start).run k) e := by
  intro returnsOf start
  have hret := returnTypesOf_sound program limit
  have hscope := h.inScope.body hproto
  have hok : Stage.Ok program k.shapes (start, k) :=
    ⟨h, .refl _, .refl _, has_ofTypes maxIterations hargs hupvalues⟩
  obtain ⟨hagrees, hshapes, hreturns⟩ :=
    agrees_lastStart returnsOf proto.body start.maxIterations 0 (start, k)
  exact (hok.lastStart hret hscope _).settled_walked hret (remembers_returnTypesOf program limit)
    hscope (hok.vars_lastStart hret hscope _) hagrees hshapes hreturns he

end Inference
end AdaptiveScript
