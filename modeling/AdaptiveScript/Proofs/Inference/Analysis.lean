import AdaptiveScript.Proofs.Inference.Expression

/-!
# Analysis finds typings

The analysis of a body ends in one of two ways.  Either its last pass changed no local, or
the passes ran out and a last pass was made with every local in conflict.  In both cases
the states of the locals were the same all through the last pass, and that is the whole
argument: each type found on the way was found under the very typing that the analysis
returns, so each assignment and each return fits it.

## Why the states stay the same

A pass moves the state of a local in one direction only (`VarState.Le`): from unassigned
to a type, from a table type to one whose shape has a larger number, and to conflict.  The
order is antisymmetric, so a pass that ends where it began has stood still
(`Advances.vars_eq`).  Shapes do change during such a pass, and return types are found;
both only grow, which typings survive.

## Main results

* `gives_analyze`: the analysis of a body ends with a typing of it, under which parameters
  take the types they were given;
* `returnTypesOf_sound`: return types that are remembered are those of a typing.
-/

namespace AdaptiveScript

/-! ## The order on states of locals -/

namespace VarState

/-- The directions in which the state of a local changes. -/
inductive Le (shapes : Shapes) : VarState → VarState → Prop
  | refl (state : VarState) : Le shapes state state
  | unassigned (state : VarState) : Le shapes .unassigned state
  | merged {a b : Nat} : a ≤ b → shapes.resolve a = shapes.resolve b →
    Le shapes (.fixed (.tableOf a)) (.fixed (.tableOf b))
  | conflicted (state : VarState) : Le shapes state .conflicted

namespace Le

variable {shapes : Shapes} {a b c : VarState}

theorem trans (hab : a.Le shapes b) (hbc : b.Le shapes c) : a.Le shapes c := by
  cases hab with
  | refl => exact hbc
  | unassigned => exact .unassigned c
  | merged hle hres =>
    cases hbc with
    | refl => exact .merged hle hres
    | merged hle' hres' => exact .merged (Nat.le_trans hle hle') (hres.trans hres')
    | conflicted => exact .conflicted _
  | conflicted =>
    cases hbc with
    | refl => exact .conflicted a
    | conflicted => exact .conflicted a

theorem antisymm (hab : a.Le shapes b) (hba : b.Le shapes a) : a = b := by
  cases hab with
  | refl => rfl
  | unassigned =>
    cases hba with
    | refl => rfl
    | unassigned => rfl
  | merged hle _ =>
    cases hba with
    | refl => rfl
    | merged hle' _ => rw [Nat.le_antisymm hle hle']
  | conflicted =>
    cases hba with
    | refl => rfl
    | conflicted => rfl

theorem eq_conflicted (h : VarState.conflicted.Le shapes a) : a = .conflicted := by
  cases h with
  | refl => rfl
  | conflicted => rfl

theorem mono {before after : Shapes} (hg : before.Grows after) (hb : before.Forest)
    (ha : after.Forest) (h : a.Le before b) : a.Le after b := by
  cases h with
  | refl => exact .refl a
  | unassigned => exact .unassigned b
  | merged hle hres => exact .merged hle (hg.resolve_congr hb ha hres)
  | conflicted => exact .conflicted a

/-- A local that was given a type takes values of that type later on. -/
theorem read_of_fixed {type : Ty} (h : (VarState.fixed type).Le shapes a) :
    a.read = .unknown ∨ a.read.canonical shapes = type.canonical shapes := by
  cases h with
  | refl => exact .inr rfl
  | merged _ hres =>
    refine .inr ?_
    simp only [read, Ty.canonical, Ty.ofShape, hres]
  | conflicted => exact .inl rfl

end Le

/-- What an assignment does to the state of a local: it gives the first type, leaves the type
as it is, finds a conflict, or takes the representative of the shape. -/
inductive Moves (shapes : Shapes) : VarState → VarState → Prop
  | first (type : Ty) : Moves shapes .unassigned (.fixed type)
  | stay (type : Ty) : Moves shapes (.fixed type) (.fixed type)
  | merged (shape : Nat) :
    Moves shapes (.fixed (.tableOf shape)) (.fixed (.tableOf (shapes.resolve shape)))
  | conflict {state : VarState} : state ≠ .unassigned → Moves shapes state .conflicted

namespace Moves

variable {shapes : Shapes} {a b : VarState}

theorem le (hf : shapes.Forest) (h : a.Moves shapes b) : a.Le shapes b := by
  cases h with
  | first type => exact .unassigned _
  | stay type => exact .refl _
  | merged shape => exact .merged (hf.le_resolve shape) (hf.resolve_resolve shape).symm
  | conflict _ => exact .conflicted a

/-- A local that was assigned is not unassigned. -/
theorem ne_unassigned (h : a.Moves shapes b) : b ≠ .unassigned := by
  cases h <;> exact fun heq => by cases heq

end Moves
end VarState

namespace Inference

open Learn (Gives)

/-- The state of a local.  A local that the function does not have counts as in conflict. -/
def varState (ctx : Inference) (slot : Nat) : VarState :=
  ctx.vars[slot]?.getD .conflicted

theorem varType_eq (ctx : Inference) (slot : Nat) :
    ctx.varType slot = if ctx.proto.isCaptured slot then .unknown else (ctx.varState slot).read := by
  unfold varType varState
  cases ctx.vars[slot]? <;> rfl

/-- A read sees at most what the state of the local says. -/
theorem varType_eq_or (ctx : Inference) (slot : Nat) :
    ctx.varType slot = .unknown ∨ ctx.varType slot = (ctx.varState slot).read := by
  rw [varType_eq]
  split
  · exact .inl rfl
  · exact .inr rfl

theorem varState_setIfInBounds (ctx : Inference) {slot : Nat} (h : slot < ctx.vars.size)
    (next : VarState) (other : Nat) :
    { ctx with vars := ctx.vars.setIfInBounds slot next }.varState other =
      if other = slot then next else ctx.varState other := by
  unfold varState
  by_cases hother : other = slot
  · simp [hother, h]
  · simp [hother, Ne.symm hother]

/-- The states of all locals tell the locals. -/
theorem vars_ext {ctx next : Inference} (hsize : next.vars.size = ctx.vars.size)
    (h : ∀ slot, next.varState slot = ctx.varState slot) : next.vars = ctx.vars := by
  refine Array.ext hsize fun slot hnext hctx => ?_
  have hslot := h slot
  rwa [varState, varState, Array.getElem?_eq_getElem hnext, Array.getElem?_eq_getElem hctx,
    Option.getD_some, Option.getD_some] at hslot

theorem typing_congr {ctx next : Inference} (hproto : next.proto = ctx.proto)
    (hupvalues : next.upvalueTypes = ctx.upvalueTypes) (hvars : next.vars = ctx.vars) :
    next.typing = ctx.typing := by
  simp only [typing, Typing.mk.injEq]
  constructor
  · funext slot
    simp only [varType, hproto, hvars]
  · funext index
    simp only [upvalueType, hupvalues]

/-- The shapes that an analysis names exist. -/
structure Has (ctx : Inference) (shapes : Shapes) : Prop where
  vars : ∀ {slot : Nat} {type : Ty}, ctx.varState slot = .fixed type → type.Has shapes
  upvalues : ∀ type ∈ ctx.upvalueTypes, type.Has shapes
  returns : ∀ types, ctx.returns = some types → ∀ type ∈ types, type.Has shapes

theorem Has.mono {ctx : Inference} {before after : Shapes} (hg : before.Grows after)
    (h : ctx.Has before) : ctx.Has after where
  vars hslot := (h.vars hslot).mono hg
  upvalues type htype := (h.upvalues type htype).mono hg
  returns types htypes type htype := (h.returns types htypes type htype).mono hg

theorem Has.typing {ctx : Inference} {shapes : Shapes} (h : ctx.Has shapes) :
    ctx.typing.Has shapes where
  slot index := by
    show (ctx.varType index).Has shapes
    rcases ctx.varType_eq_or index with heq | heq
    · rw [heq]
      trivial
    · rw [heq]
      cases hstate : ctx.varState index with
      | unassigned => trivial
      | fixed type => exact h.vars hstate
      | conflicted => trivial
  upvalue index := by
    show (ctx.upvalueTypes[index]?.getD .unknown).Has shapes
    cases htype : ctx.upvalueTypes[index]? with
    | none => trivial
    | some type => exact h.upvalues type (List.mem_of_getElem? htype)

/-! ## Progress of a pass -/

/-- What walking does to an analysis: states move in their direction, and the return types
cover those there were. -/
structure Advances (shapes : Shapes) (ctx next : Inference) : Prop where
  proto : next.proto = ctx.proto
  upvalues : next.upvalueTypes = ctx.upvalueTypes
  size : next.vars.size = ctx.vars.size
  le : ∀ slot, (ctx.varState slot).Le shapes (next.varState slot)
  returns : ∀ types, ctx.returns = some types →
    ∃ wider, next.returns = some wider ∧ Covers wider types

namespace Advances

variable {shapes : Shapes} {ctx mid next : Inference}

theorem refl (shapes : Shapes) (ctx : Inference) : Advances shapes ctx ctx :=
  ⟨rfl, rfl, rfl, fun _ => .refl _, fun types h => ⟨types, h, .refl types⟩⟩

theorem trans (h₁ : Advances shapes ctx mid) (h₂ : Advances shapes mid next) :
    Advances shapes ctx next where
  proto := h₂.proto.trans h₁.proto
  upvalues := h₂.upvalues.trans h₁.upvalues
  size := h₂.size.trans h₁.size
  le slot := (h₁.le slot).trans (h₂.le slot)
  returns types h := by
    obtain ⟨wide, hwide, hcovers⟩ := h₁.returns types h
    obtain ⟨wider, hwider, hcovers'⟩ := h₂.returns wide hwide
    exact ⟨wider, hwider, hcovers'.trans hcovers⟩

theorem mono {before after : Shapes} (hg : before.Grows after) (hb : before.Forest)
    (ha : after.Forest) (h : Advances before ctx next) : Advances after ctx next :=
  ⟨h.proto, h.upvalues, h.size, fun slot => (h.le slot).mono hg hb ha, h.returns⟩

/-- States that come back to where they were have never left. -/
theorem vars_eq (h₁ : Advances shapes ctx mid) (h₂ : Advances shapes mid next)
    (h : next.vars = ctx.vars) : mid.vars = ctx.vars := by
  refine vars_ext h₁.size fun slot => ?_
  have hback : (next.varState slot) = ctx.varState slot := by
    simp only [varState, h]
  have hle := h₂.le slot
  rw [hback] at hle
  exact ((h₁.le slot).antisymm hle).symm

theorem typing_eq (h : Advances shapes ctx next) (hvars : next.vars = ctx.vars) :
    next.typing = ctx.typing :=
  typing_congr h.proto h.upvalues hvars

end Advances

/-! ## Return types of a pass -/

theorem join_eq_or (a b : Ty) : a.join b = .unknown ∨ (a.join b = a ∧ a.join b = b) := by
  unfold Ty.join
  split
  · next h => exact .inr ⟨rfl, h⟩
  · exact .inl rfl

/-- Joining covers both sides. -/
theorem covers_joinReturns (a b : List Ty) :
    Covers (joinReturns a b) a ∧ Covers (joinReturns a b) b := by
  fun_induction joinReturns a b with
  | case1 ts =>
    refine ⟨fun index => ?_, fun index => ?_⟩ <;>
      simp only [List.getElem?_map] <;> cases ts[index]? with
      | none => exact .inr rfl
      | some t => rcases join_eq_or .nil t with h | ⟨hl, hr⟩ <;> simp_all
  | case2 ts =>
    refine ⟨fun index => ?_, fun index => ?_⟩ <;>
      simp only [List.getElem?_map] <;> cases ts[index]? with
      | none => exact .inr rfl
      | some t => rcases join_eq_or t .nil with h | ⟨hl, hr⟩ <;> simp_all
  | case3 a as b bs ih =>
    refine ⟨fun index => ?_, fun index => ?_⟩ <;> cases index with
      | zero => rcases join_eq_or a b with h | ⟨hl, hr⟩ <;> simp_all
      | succ index => first | exact ih.1 index | exact ih.2 index

theorem has_joinReturns {shapes : Shapes} (a b : List Ty) (ha : ∀ t ∈ a, t.Has shapes)
    (hb : ∀ t ∈ b, t.Has shapes) : ∀ t ∈ joinReturns a b, t.Has shapes := by
  fun_induction joinReturns a b with
  | case1 ts =>
    intro t ht
    obtain ⟨_, _, rfl⟩ := List.mem_map.1 ht
    exact has_join trivial
  | case2 ts =>
    intro t ht
    obtain ⟨u, hu, rfl⟩ := List.mem_map.1 ht
    exact has_join (ha u hu)
  | case3 a as b bs ih =>
    intro t ht
    rcases List.mem_cons.1 ht with rfl | ht
    · exact has_join (ha a (List.mem_cons_self ..))
    · exact ih (fun u hu => ha u (List.mem_cons_of_mem _ hu))
        (fun u hu => hb u (List.mem_cons_of_mem _ hu)) t ht

/-- The return types after a return was recorded cover those of the return. -/
theorem covers_recordReturn (ctx : Inference) (types : List Ty) :
    ∃ wider, (ctx.recordReturn types).returns = some wider ∧ Covers wider types := by
  unfold recordReturn
  cases ctx.returns with
  | none => exact ⟨types, rfl, .refl types⟩
  | some existing => exact ⟨_, rfl, (covers_joinReturns existing types).2⟩

theorem advances_recordReturn (shapes : Shapes) (ctx : Inference) (types : List Ty) :
    Advances shapes ctx (ctx.recordReturn types) where
  proto := rfl
  upvalues := rfl
  size := rfl
  le _ := .refl _
  returns existing h := by
    refine ⟨joinReturns existing types, ?_, (covers_joinReturns existing types).1⟩
    simp only [recordReturn, h]

theorem has_recordReturn {ctx : Inference} {shapes : Shapes} (h : ctx.Has shapes)
    {types : List Ty} (htypes : ∀ t ∈ types, t.Has shapes) :
    (ctx.recordReturn types).Has shapes where
  vars hslot := h.vars hslot
  upvalues := h.upvalues
  returns wider hwider := by
    unfold recordReturn at hwider
    cases hret : ctx.returns with
    | none =>
      simp only [hret, Option.some.injEq] at hwider
      exact hwider ▸ htypes
    | some existing =>
      simp only [hret, Option.some.injEq] at hwider
      exact hwider ▸ has_joinReturns existing types (h.returns existing hret) htypes

/-! ## Assignments -/

section

variable {program : Program} {bound : Nat} {returnsOf : ReturnsOf} {k : Knowledge}

/-- What an assignment does to the state of a local. -/
theorem gives_assigned (h : k.Sound program) {type : Ty} (htype : type.Has k.shapes)
    {var : VarState} (hvar : ∀ current, var = .fixed current → current.Has k.shapes) :
    Gives program bound (assigned type var) k fun next after =>
      var.Moves after.shapes next ∧ (∀ current, next = .fixed current → current.Has after.shapes) ∧
        (next.read = .unknown ∨ next.read.canonical after.shapes = type.canonical after.shapes) := by
  cases var with
  | unassigned =>
    refine .pure h ⟨.first type, fun current heq => ?_, .inr rfl⟩
    cases heq
    exact htype
  | conflicted =>
    exact .pure h ⟨.conflict (by simp), fun _ heq => (by cases heq), .inl rfl⟩
  | fixed current =>
    simp only [assigned]
    split
    · next heq => exact .pure h ⟨.stay current, hvar, .inr (by rw [VarState.read, heq])⟩
    · split
      · next a b ha hb =>
        -- two table types: their shapes are merged if both can still change
        cases current <;> cases ha
        cases type <;> cases hb
        have hhas : k.shapes.Has a := hvar _ rfl
        refine (Learn.gives_mergeShapes h hhas htype).bind fun result k₁ hev₁ hrep => ?_
        cases result with
        | none =>
          exact .pure hev₁.sound ⟨.conflict (by simp), fun _ heq => (by cases heq), .inl rfl⟩
        | some rep =>
          obtain ⟨hra, hrb⟩ := hrep rep rfl
          refine (Learn.gives_tableType hev₁.sound rep).bind fun merged k₂ hev₂ hmerged =>
            .pure hev₂.sound ?_
          have hforest := hev₂.sound.forest
          have hresolve : k₂.shapes.resolve rep = k₂.shapes.resolve a := by
            rw [← hra, hev₂.grows.shapes.resolve_resolve hev₁.sound.forest hforest]
          have hresolve' : k₂.shapes.resolve rep = k₂.shapes.resolve b := by
            rw [← hrb, hev₂.grows.shapes.resolve_resolve hev₁.sound.forest hforest]
          rw [hmerged]
          refine ⟨?_, fun current heq => ?_, .inr ?_⟩
          · rw [hresolve]
            exact .merged a
          · cases heq
            have hlate : k₂.shapes.Has a := (hev₁.trans hev₂).grows.shapes.has hhas
            show k₂.shapes.Has (k₂.shapes.resolve rep)
            rw [hresolve]
            exact hforest.has_resolve hlate
          · simp only [VarState.read, Ty.canonical, Ty.ofShape, hforest.resolve_resolve,
              hresolve']
      · exact .pure h ⟨.conflict (by simp), fun _ heq => (by cases heq), .inl rfl⟩

/-- An assignment moves the state of its local and no other. -/
theorem gives_assign_moves (h : k.Sound program) {ctx : Inference} (hctx : ctx.Has k.shapes)
    (slot : Nat) {type : Ty} (htype : type.Has k.shapes) :
    Gives program bound (ctx.assign slot type) k fun next after =>
      (ctx.varState slot).Moves after.shapes (next.varState slot) ∧
        ∀ other ≠ slot, next.varState other = ctx.varState other := by
  unfold assign
  cases hvar : ctx.vars[slot]? with
  | none =>
    refine .pure h ⟨?_, fun _ _ => rfl⟩
    rw [varState, hvar]
    exact .conflict (by simp)
  | some var =>
    have hslot : slot < ctx.vars.size := (Array.getElem?_eq_some_iff.1 hvar).1
    have hstate : ctx.varState slot = var := by rw [varState, hvar, Option.getD_some]
    refine (gives_assigned h htype fun current heq => hctx.vars (hstate.trans heq)).bind
      fun next k₁ hev₁ ⟨hmoves, _, _⟩ => .pure hev₁.sound ⟨?_, fun other hother => ?_⟩
    · rw [varState_setIfInBounds ctx hslot, if_pos rfl, hstate]
      exact hmoves
    · rw [varState_setIfInBounds ctx hslot, if_neg hother]

/-- What an assignment does to an analysis.  If it changes no state, the local takes values
of the type. -/
theorem gives_assign (h : k.Sound program) {ctx : Inference} (hctx : ctx.Has k.shapes)
    (slot : Nat) {type : Ty} (htype : type.Has k.shapes) :
    Gives program bound (ctx.assign slot type) k fun next after =>
      Advances after.shapes ctx next ∧ next.Has after.shapes ∧
        (next.vars = ctx.vars → ctx.typing.Takes after.shapes slot type) := by
  unfold assign
  cases hvar : ctx.vars[slot]? with
  | none =>
    refine .pure h ⟨.refl _ ctx, hctx, fun _ => .inl ?_⟩
    show ctx.varType slot = .unknown
    rw [varType_eq, varState, hvar]
    split <;> rfl
  | some var =>
    have hslot : slot < ctx.vars.size := (Array.getElem?_eq_some_iff.1 hvar).1
    have hstate : ctx.varState slot = var := by rw [varState, hvar, Option.getD_some]
    have hhas : ∀ current, var = .fixed current → current.Has k.shapes :=
      fun current heq => hctx.vars (hstate.trans heq)
    refine (gives_assigned h htype hhas).bind fun next k₁ hev₁ ⟨hmoves, hnext, hread⟩ =>
      .pure hev₁.sound ⟨⟨rfl, rfl, by simp, fun other => ?_, fun types ht => ?_⟩,
        ⟨fun {other current} hother => ?_, (hctx.mono hev₁.grows.shapes).upvalues,
          (hctx.mono hev₁.grows.shapes).returns⟩, fun hvars => ?_⟩
    · rw [varState_setIfInBounds ctx hslot]
      split
      · next heq =>
        rw [heq, hstate]
        exact hmoves.le hev₁.sound.forest
      · exact .refl _
    · exact ⟨types, ht, .refl types⟩
    · rw [varState_setIfInBounds ctx hslot] at hother
      split at hother
      · exact hnext current hother
      · exact (hctx.mono hev₁.grows.shapes).vars hother
    · -- the state of the local is the one that the assignment gave it
      have hsame : ctx.varState slot = next := by
        have hset := varState_setIfInBounds ctx hslot next slot
        rw [if_pos rfl] at hset
        exact (congrArg (fun vars : Array VarState => vars[slot]?.getD VarState.conflicted)
          hvars).symm.trans hset
      rcases ctx.varType_eq_or slot with heq | heq
      · exact .inl heq
      · rw [hsame] at heq
        show ctx.varType slot = .unknown ∨ (ctx.varType slot).canonical _ = _
        rw [heq]
        exact hread

/-! ## Passes -/

/-- The types that a return statement returns. -/
theorem gives_inferReturn (hret : returnsOf.Sound program bound) (h : k.Sound program)
    {ctx : Inference} (hctx : ctx.typing.Has k.shapes) {es : List Expr}
    (hes : ∀ e ∈ es, e.Scoped program k.shapes) :
    Gives program bound (inferReturn returnsOf ctx es) k fun types after =>
      ReturnTypes after ctx.typing es types ∧ ∀ type ∈ types, type.Has after.shapes := by
  have hall := Expr.allScoped_of_forall hes
  unfold inferReturn
  split
  · next e =>
    have he : e.Scoped program k.shapes := hes e (List.mem_cons_self ..)
    -- a call passes on all its results, anything else gives one
    have hone : Gives program bound (infer returnsOf ctx e >>= fun type => pure [type]) k
        fun types after => ReturnTypes after ctx.typing [e] types ∧
          ∀ type ∈ types, type.Has after.shapes :=
      (gives_infer hret ctx e h hctx he).bind fun type k₁ hev₁ hinfer => .pure hev₁.sound
        ⟨.values (.cons hinfer.1 .nil), fun t ht => List.mem_singleton.1 ht ▸ hinfer.2⟩
    cases e with
    | call callee args =>
      obtain ⟨hcallee, hargs⟩ := Expr.scoped_call.1 he
      rw [inferForwarded]
      refine (gives_infer hret ctx callee h hctx hcallee).bind fun type k₁ hev₁ hinfer => ?_
      have htype := hinfer.1
      refine (gives_inferAll hret ctx args hev₁.sound (hctx.mono hev₁.grows.shapes)
        (hargs.mono hev₁.grows.shapes)).bind fun _ k₂ hev₂ _ => ?_
      refine (gives_callTypes hret hev₂.sound type).bind fun result k₃ hev₃ hresult =>
        .pure hev₃.sound ?_
      have hunknown : ReturnTypes k₃ ctx.typing [.call callee args] [.unknown] ∧
          ∀ type ∈ [Ty.unknown], type.Has k₃.shapes :=
        ⟨.values (.cons (.any _) .nil), fun t ht => by rw [List.mem_singleton.1 ht]; trivial⟩
      cases result with
      | none => exact hunknown
      | some types =>
        rcases hresult types rfl with heq | ⟨ref, heq, hreturns⟩
        · rw [heq]
          exact hunknown
        · rw [heq] at htype
          have hev := hev₂.trans hev₃
          exact ⟨.forward (htype.mono hev.grows hev₁.sound.forest hev.sound.forest) hreturns,
            (hev₃.sound.returns hreturns).has⟩
    | _ => exact hone
  · exact (gives_inferAll hret ctx es h hctx hall).mono fun types k₁ _ hinfer =>
      ⟨.values hinfer.1, hinfer.2⟩

/-- What walking through statements comes to.  If no state changed on the way, `flows` holds
of the typing and of all return types that cover those found. -/
structure Walked (shapes : Shapes) (ctx next : Inference) (flows : Typing → List Ty → Prop) :
    Prop where
  advances : Advances shapes ctx next
  has : next.Has shapes
  flows : next.vars = ctx.vars → ∀ returns : List Ty,
    (∀ types, next.returns = some types → Covers returns types) → flows ctx.typing returns

namespace Walked

variable {shapes : Shapes} {ctx mid next : Inference} {P Q : Typing → List Ty → Prop}

theorem imp (h : Walked shapes ctx next P) (himp : ∀ Γ returns, P Γ returns → Q Γ returns) :
    Walked shapes ctx next Q :=
  ⟨h.advances, h.has, fun hvars returns hr => himp _ _ (h.flows hvars returns hr)⟩

/-- Walking that changes nothing. -/
theorem refl (h : ctx.Has shapes) (hp : ∀ Γ returns, P Γ returns) : Walked shapes ctx ctx P :=
  ⟨.refl shapes ctx, h, fun _ _ _ => hp _ _⟩

/-- Walking through one part and then through another. -/
theorem trans {before after : Shapes} (hev : before.Evolves after) (hb : before.Forest)
    (h₁ : Walked before ctx mid P) (h₂ : Walked after mid next Q) :
    Walked after ctx next fun Γ returns => P Γ returns ∧ Q Γ returns where
  advances := (h₁.advances.mono hev.grows hb hev.forest).trans h₂.advances
  has := h₂.has
  flows hvars returns hcovers := by
    have hmid := (h₁.advances.mono hev.grows hb hev.forest).vars_eq h₂.advances hvars
    refine ⟨h₁.flows hmid returns fun types htypes => ?_, ?_⟩
    · obtain ⟨wider, hwider, hwide⟩ := h₂.advances.returns types htypes
      exact (hcovers wider hwider).trans hwide
    · rw [← h₁.advances.typing_eq hmid]
      exact h₂.flows (hvars.trans hmid.symm) returns hcovers

end Walked

theorem evolves_shapes {before after : Knowledge} (h : before.Evolves program after) :
    before.shapes.Evolves after.shapes :=
  ⟨h.sound.forest, h.grows.shapes⟩

/-- A statement that assigns the value of an expression. -/
theorem gives_inferAssign (hret : returnsOf.Sound program bound) (h : k.Sound program)
    {ctx : Inference} (hctx : ctx.Has k.shapes) (slot : Nat) {e : Expr} (he : e.Scoped program k.shapes) :
    Gives program bound (infer returnsOf ctx e >>= fun type => ctx.assign slot type) k
      fun next after => Walked after.shapes ctx next fun Γ _ =>
        ∃ type, HasType after Γ e type ∧ Γ.Takes after.shapes slot type := by
  refine (gives_infer hret ctx e h hctx.typing he).bind fun type k₁ hev₁ hinfer => ?_
  obtain ⟨htype, hhas⟩ := hinfer
  refine (gives_assign hev₁.sound (hctx.mono hev₁.grows.shapes) slot hhas).mono
    fun next k₂ hev₂ hassign => ?_
  obtain ⟨hadvances, hnext, htakes⟩ := hassign
  refine ⟨hadvances, hnext, fun hvars _ _ => ?_⟩
  exact ⟨type, htype.mono hev₂.grows hev₁.sound.forest hev₂.sound.forest, htakes hvars⟩

/-- The type of the step of a numeric loop. -/
theorem gives_inferStep (hret : returnsOf.Sound program bound) (h : k.Sound program)
    {ctx : Inference} (hctx : ctx.Has k.shapes) (step : Option Expr)
    (hstep : ∀ e ∈ step.toList, e.Scoped program k.shapes) :
    Gives program bound (inferStep returnsOf ctx step) k
      fun type after => StepType after ctx.typing step type := by
  cases step with
  | none => exact .pure h rfl
  | some e =>
    exact (gives_infer hret ctx e h hctx.typing (hstep e (by simp))).mono fun _ _ _ ht => ht.1

/-- A statement that is walked by inferring the types of its operands. -/
theorem gives_inferOnly (hret : returnsOf.Sound program bound) (h : k.Sound program)
    {ctx : Inference} (hctx : ctx.Has k.shapes) {e : Expr} (he : e.Scoped program k.shapes)
    {P : Knowledge → Typing → List Ty → Prop} (hp : ∀ k Γ returns, P k Γ returns) :
    Gives program bound (infer returnsOf ctx e >>= fun _ => pure ctx) k
      fun next after => Walked after.shapes ctx next (P after) :=
  (gives_infer hret ctx e h hctx.typing he).bind fun _ _ hev₁ _ =>
    .pure hev₁.sound (.refl (hctx.mono hev₁.grows.shapes) fun _ _ => hp _ _ _)

mutual

/-- Walking through a statement. -/
theorem gives_walk (hret : returnsOf.Sound program bound) :
    ∀ (s : Stmt) {ctx : Inference} {k : Knowledge}, k.Sound program → ctx.Has k.shapes →
      s.Every (Stmt.Scoped program k.shapes) →
      Gives program bound (walk returnsOf s ctx) k fun next after =>
        Walked after.shapes ctx next fun Γ returns => s.Every (Flows after Γ returns)
  | .declare slot (some e), ctx, k, h, hctx, hscope => by
    rw [walk]
    exact gives_inferAssign hret h hctx slot (hscope e (List.mem_cons_self ..))
  | .declare slot none, ctx, k, h, hctx, hscope => by
    rw [walk]
    have hnil : Ty.nil.Has k.shapes := trivial
    exact (gives_assign h hctx slot hnil).mono
      fun next k₁ _ ⟨hadvances, hnext, htakes⟩ => ⟨hadvances, hnext, fun hvars _ _ => htakes hvars⟩
  | .assign slot e, ctx, k, h, hctx, hscope => by
    rw [walk]
    exact gives_inferAssign hret h hctx slot (hscope e (List.mem_cons_self ..))
  | .setUpvalue index e, ctx, k, h, hctx, hscope => by
    rw [walk]
    exact gives_inferOnly hret h hctx (hscope e (List.mem_cons_self ..)) fun _ _ _ => trivial
  | .setGlobal name e, ctx, k, h, hctx, hscope => by
    rw [walk]
    exact gives_inferOnly hret h hctx (hscope e (List.mem_cons_self ..)) fun _ _ _ => trivial
  | .setIndex target key value, ctx, k, h, hctx, hscope => by
    rw [walk]
    refine (gives_infer hret ctx target h hctx.typing (hscope target (by simp [Stmt.operands]))).bind
      fun _ k₁ hev₁ _ => ?_
    have hctx₁ := hctx.mono hev₁.grows.shapes
    refine (gives_infer hret ctx key hev₁.sound hctx₁.typing
      ((hscope key (by simp [Stmt.operands])).mono hev₁.grows.shapes)).bind fun _ k₂ hev₂ _ => ?_
    have hev := hev₁.trans hev₂
    exact gives_inferOnly hret hev₂.sound (hctx.mono hev.grows.shapes)
      ((hscope value (by simp [Stmt.operands])).mono hev.grows.shapes) fun _ _ _ => trivial
  | .expr e, ctx, k, h, hctx, hscope => by
    rw [walk]
    exact gives_inferOnly hret h hctx (hscope e (List.mem_cons_self ..)) fun _ _ _ => trivial
  | .branch cond thenBlock elseBlock, ctx, k, h, hctx, hscope => by
    obtain ⟨hs, ht, he⟩ := hscope
    rw [walk]
    refine (gives_infer hret ctx cond h hctx.typing (hs cond (List.mem_cons_self ..))).bind
      fun _ k₁ hev₁ _ => ?_
    have hlift {block : List Stmt} {k' : Knowledge} (hg : k.Grows k')
        (hb : Stmt.BlockEvery (Stmt.Scoped program k.shapes) block) :
        Stmt.BlockEvery (Stmt.Scoped program k'.shapes) block := hb.mono fun _ hs => hs.mono hg.shapes
    refine (gives_walkBlock hret thenBlock hev₁.sound (hctx.mono hev₁.grows.shapes)
      (hlift hev₁.grows ht)).bind fun mid k₂ hev₂ hthen => ?_
    refine (gives_walkBlock hret elseBlock hev₂.sound hthen.has
      (hlift (hev₁.trans hev₂).grows he)).mono fun next k₃ hev₃ helse => ?_
    refine (hthen.trans (evolves_shapes hev₃) hev₂.sound.forest helse).imp
      fun Γ returns ⟨hft, hfe⟩ => ⟨trivial, hft.mono fun _ hs => ?_, hfe⟩
    exact hs.mono hev₃.grows hev₂.sound.forest hev₃.sound.forest
  | .whileLoop cond body, ctx, k, h, hctx, hscope => by
    obtain ⟨hs, hb⟩ := hscope
    rw [walk]
    refine (gives_infer hret ctx cond h hctx.typing (hs cond (List.mem_cons_self ..))).bind
      fun _ k₁ hev₁ _ => ?_
    refine (gives_walkBlock hret body hev₁.sound (hctx.mono hev₁.grows.shapes)
      (hb.mono fun _ hs => hs.mono hev₁.grows.shapes)).mono fun next k₂ _ hbody => ?_
    exact hbody.imp fun _ _ hf => ⟨trivial, hf⟩
  | .forLoop slot start limit step body, ctx, k, h, hctx, hscope => by
    obtain ⟨hs, hb⟩ := hscope
    rw [walk]
    refine (gives_infer hret ctx start h hctx.typing (hs start (by simp [Stmt.operands]))).bind
      fun st k₁ hev₁ ⟨hst, _⟩ => ?_
    refine (gives_infer hret ctx limit hev₁.sound (hctx.mono hev₁.grows.shapes).typing
      ((hs limit (by simp [Stmt.operands])).mono hev₁.grows.shapes)).bind fun lt k₂ hev₂ ⟨hlt, _⟩ => ?_
    have hev₁₂ := hev₁.trans hev₂
    refine (gives_inferStep hret hev₂.sound (hctx.mono hev₁₂.grows.shapes) step
      (fun e he => (hs e (by simp [Stmt.operands, he])).mono hev₁₂.grows.shapes)).bind
      fun dt k₃ hev₃ hdt => ?_
    have hev₁₃ := hev₁₂.trans hev₃
    refine (gives_assign hev₃.sound (hctx.mono hev₁₃.grows.shapes) slot
      (has_loopType _ st lt dt)).bind fun mid k₄ hev₄ ⟨hadvances, hmid, htakes⟩ => ?_
    have hloop : Walked k₄.shapes ctx mid fun Γ returns =>
        Flows k₄ Γ returns (.forLoop slot start limit step body) := by
      refine ⟨hadvances, hmid, fun hvars _ _ => ⟨st, lt, dt, ?_, ?_, ?_, htakes hvars⟩⟩
      · have hev := (hev₂.trans hev₃).trans hev₄
        exact hst.mono hev.grows hev₁.sound.forest hev.sound.forest
      · have hev := hev₃.trans hev₄
        exact hlt.mono hev.grows hev₂.sound.forest hev.sound.forest
      · exact hdt.mono hev₄.grows hev₃.sound.forest hev₄.sound.forest
    refine (gives_walkBlock hret body hev₄.sound hmid
      (hb.mono fun _ hs => hs.mono (hev₁₃.trans hev₄).grows.shapes)).mono fun next k₅ hev₅ hbody => ?_
    refine (hloop.trans (evolves_shapes hev₅) hev₄.sound.forest hbody).imp
      fun Γ returns ⟨hf, hfb⟩ => ⟨?_, hfb⟩
    exact hf.mono hev₅.grows hev₄.sound.forest hev₅.sound.forest
  | .ret values, ctx, k, h, hctx, hscope => by
    rw [walk]
    refine (gives_inferReturn hret h hctx.typing hscope).bind fun types k₁ hev₁ ⟨htypes, hhas⟩ =>
      .pure hev₁.sound ⟨advances_recordReturn _ ctx types,
        has_recordReturn (hctx.mono hev₁.grows.shapes) hhas, fun _ returns hcovers => ?_⟩
    obtain ⟨wider, hwider, hwide⟩ := covers_recordReturn ctx types
    exact ⟨types, htypes, (hcovers wider hwider).trans hwide⟩
  | .breakLoop, ctx, k, h, hctx, _ => by
    rw [walk]
    exact .pure h (.refl hctx fun _ _ => trivial)

/-- Walking through a block. -/
theorem gives_walkBlock (hret : returnsOf.Sound program bound) :
    ∀ (block : List Stmt) {ctx : Inference} {k : Knowledge}, k.Sound program →
      ctx.Has k.shapes → Stmt.BlockEvery (Stmt.Scoped program k.shapes) block →
      Gives program bound (walkBlock returnsOf block ctx) k fun next after =>
        Walked after.shapes ctx next fun Γ returns => Stmt.BlockEvery (Flows after Γ returns) block
  | [], ctx, k, h, hctx, _ => by
    rw [walkBlock]
    exact .pure h (.refl hctx fun _ _ => trivial)
  | s :: rest, ctx, k, h, hctx, ⟨hs, hrest⟩ => by
    rw [walkBlock]
    refine (gives_walk hret s h hctx hs).bind fun mid k₁ hev₁ hfirst => ?_
    refine (gives_walkBlock hret rest hev₁.sound hfirst.has
      (hrest.mono fun _ hs => hs.mono hev₁.grows.shapes)).mono fun next k₂ hev₂ hothers => ?_
    refine (hfirst.trans (evolves_shapes hev₂) hev₁.sound.forest hothers).imp
      fun Γ returns ⟨hf, hfr⟩ => ⟨hf.mono fun _ hs => ?_, hfr⟩
    exact hs.mono hev₂.grows hev₁.sound.forest hev₂.sound.forest

end

/-- What passes do to an analysis, apart from its return types. -/
structure Reaches (shapes : Shapes) (ctx next : Inference) : Prop where
  proto : next.proto = ctx.proto
  upvalues : next.upvalueTypes = ctx.upvalueTypes
  size : next.vars.size = ctx.vars.size
  le : ∀ slot, (ctx.varState slot).Le shapes (next.varState slot)

theorem Reaches.trans {before after : Shapes} (hev : before.Evolves after) (hb : before.Forest)
    {ctx mid next : Inference} (h₁ : Reaches before ctx mid) (h₂ : Reaches after mid next) :
    Reaches after ctx next :=
  ⟨h₂.proto.trans h₁.proto, h₂.upvalues.trans h₁.upvalues, h₂.size.trans h₁.size,
    fun slot => ((h₁.le slot).mono hev.grows hb hev.forest).trans (h₂.le slot)⟩

/-- One pass.  If it changed no state, it has found a typing. -/
theorem gives_walkBody (hret : returnsOf.Sound program bound) (h : k.Sound program)
    {ctx : Inference} (hctx : ctx.Has k.shapes) {body : List Stmt}
    (hscope : Stmt.BlockEvery (Stmt.Scoped program k.shapes) body) :
    Gives program bound (walkBody returnsOf body ctx) k fun next after =>
      Reaches after.shapes ctx next ∧ next.Has after.shapes ∧
        (next.vars = ctx.vars → BodyTyped after ctx.typing next.returnTypes body) := by
  have hstart : { ctx with returns := none }.Has k.shapes :=
    ⟨fun hslot => hctx.vars hslot, hctx.upvalues, fun _ heq => by cases heq⟩
  unfold walkBody
  refine (gives_walkBlock hret body h hstart hscope).bind fun next k₁ hev₁ hwalked =>
    .pure hev₁.sound ?_
  have hadvances := hwalked.advances
  by_cases hend : Stmt.blockFallsThrough body = true
  · -- the end of the body counts as a return without values
    rw [if_pos hend]
    have hrecord : (next.recordReturn []).Has k₁.shapes :=
      has_recordReturn hwalked.has fun _ ht => by cases ht
    obtain ⟨wider, hwider, hwide⟩ := covers_recordReturn next []
    have htypes : (next.recordReturn []).returnTypes = wider := by
      rw [returnTypes, hwider, Option.getD_some]
    refine ⟨⟨hadvances.proto, hadvances.upvalues, hadvances.size, hadvances.le⟩, hrecord,
      fun hvars => ?_⟩
    rw [htypes]
    refine ⟨(hctx.mono hev₁.grows.shapes).typing, hrecord.returns wider hwider,
      hwalked.flows hvars wider fun types ht => ?_, fun _ => hwide⟩
    obtain ⟨wider', hwider', hcovers⟩ := (advances_recordReturn k₁.shapes next []).returns types ht
    rw [hwider] at hwider'
    cases hwider'
    exact hcovers
  · rw [if_neg hend]
    refine ⟨⟨hadvances.proto, hadvances.upvalues, hadvances.size, hadvances.le⟩, hwalked.has,
      fun hvars => ⟨(hctx.mono hev₁.grows.shapes).typing, ?_, hwalked.flows hvars _ ?_,
        fun hfalls => absurd hfalls hend⟩⟩
    · unfold returnTypes
      cases hreturns : next.returns with
      | none => exact fun _ ht => by cases ht
      | some types => exact hwalked.has.returns types hreturns
    · intro types ht
      rw [returnTypes, ht]
      exact .refl types

/-- All passes: the analysis ends with a typing. -/
theorem gives_analyzeFrom (hret : returnsOf.Sound program bound) {body : List Stmt} :
    ∀ (remaining done : Nat) {ctx : Inference} {k : Knowledge}, k.Sound program →
      ctx.Has k.shapes → Stmt.BlockEvery (Stmt.Scoped program k.shapes) body →
      Gives program bound (analyzeFrom returnsOf body remaining done ctx) k fun next after =>
        Reaches after.shapes ctx next ∧ BodyTyped after next.typing next.returnTypes body := by
  intro remaining
  induction remaining with
  | zero =>
    intro done ctx k h hctx hscope
    rw [analyzeFrom]
    refine (Learn.gives_note h _).bind fun _ k₁ hev₁ _ => ?_
    -- with every local in conflict there is nothing left that could change
    have hstate (slot : Nat) :
        { ctx with vars := ctx.vars.map fun _ => .conflicted }.varState slot = .conflicted := by
      unfold varState
      rw [Array.getElem?_map]
      cases ctx.vars[slot]? <;> rfl
    have hwide : { ctx with vars := ctx.vars.map fun _ => VarState.conflicted }.Has k₁.shapes := by
      refine ⟨fun hslot => ?_, (hctx.mono hev₁.grows.shapes).upvalues,
        (hctx.mono hev₁.grows.shapes).returns⟩
      rw [hstate] at hslot
      cases hslot
    refine (gives_walkBody hret hev₁.sound hwide
      (hscope.mono fun _ hs => hs.mono hev₁.grows.shapes)).mono
      fun next k₂ hev₂ ⟨hreaches, _, htyped⟩ => ?_
    have hnext (slot : Nat) : next.varState slot = .conflicted := by
      have hle := hreaches.le slot
      rw [hstate] at hle
      exact hle.eq_conflicted
    have hvars : next.vars = ctx.vars.map fun _ => .conflicted :=
      vars_ext hreaches.size fun slot => (hnext slot).trans (hstate slot).symm
    refine ⟨⟨hreaches.proto, hreaches.upvalues, ?_, fun slot => ?_⟩, ?_⟩
    · rw [hreaches.size, Array.size_map]
    · rw [hnext slot]
      exact .conflicted _
    · rw [typing_congr hreaches.proto hreaches.upvalues hvars]
      exact htyped hvars
  | succ remaining ih =>
    intro done ctx k h hctx hscope
    rw [analyzeFrom]
    refine (gives_walkBody hret h hctx hscope).bind fun next k₁ hev₁ ⟨hreaches, hnext, htyped⟩ => ?_
    split
    · next hvars =>
      refine (Learn.gives_note hev₁.sound _).bind fun _ k₂ hev₂ hshapes => .pure hev₂.sound ?_
      refine ⟨⟨hreaches.proto, hreaches.upvalues, hreaches.size, fun slot => ?_⟩, ?_⟩
      · rw [hshapes]
        exact hreaches.le slot
      · show BodyTyped k₂ next.typing next.returnTypes body
        rw [typing_congr hreaches.proto hreaches.upvalues hvars]
        exact (htyped hvars).mono hev₂.grows hev₁.sound.forest hev₂.sound.forest
    · refine (ih (done + 1) hev₁.sound hnext
        (hscope.mono fun _ hs => hs.mono hev₁.grows.shapes)).mono
        fun last k₂ hev₂ ⟨hlast, htyped⟩ => ⟨?_, htyped⟩
      exact hreaches.trans (evolves_shapes hev₂) hev₁.sound.forest hlast

end

/-! ## Analyses of prototypes -/

theorem varState_ofTypes {proto : Prototype} {args upvalues : List Ty} {maxIterations slot : Nat}
    (h : slot < proto.localCount) : (ofTypes proto args upvalues maxIterations).varState slot =
      if slot < proto.paramCount then .fixed (args[slot]?.getD .nil) else .unassigned := by
  simp [varState, ofTypes, h]

theorem varState_ofTypes_of_le {proto : Prototype} {args upvalues : List Ty}
    {maxIterations slot : Nat} (h : proto.localCount ≤ slot) :
    (ofTypes proto args upvalues maxIterations).varState slot = .conflicted := by
  simp [varState, ofTypes, h]

theorem has_ofTypes {shapes : Shapes} {proto : Prototype} {args upvalues : List Ty}
    (maxIterations : Nat) (hargs : ∀ t ∈ args, t.Has shapes)
    (hupvalues : ∀ t ∈ upvalues, t.Has shapes) :
    (ofTypes proto args upvalues maxIterations).Has shapes where
  vars {slot type} hslot := by
    by_cases hlt : slot < proto.localCount
    · rw [varState_ofTypes hlt] at hslot
      split at hslot
      · cases hslot
        cases harg : args[slot]? with
        | none => trivial
        | some t => exact hargs t (List.mem_of_getElem? harg)
      · cases hslot
    · rw [varState_ofTypes_of_le (by omega)] at hslot
      cases hslot
  upvalues := hupvalues
  returns _ h := by cases h

section

variable {program : Program} {bound : Nat} {returnsOf : ReturnsOf} {k : Knowledge}

/-- The analysis of a prototype ends with a typing of its body.  Parameters take the types
of the arguments, and upvalues have the types they were given. -/
theorem gives_analyze (hret : returnsOf.Sound program bound) (h : k.Sound program)
    {index : Nat} {proto : Prototype} (hproto : program.prototypes[index]? = some proto)
    (args : List Ty) {upvalues : List Ty} (maxIterations : Nat) (hargs : ∀ t ∈ args, t.Has k.shapes)
    (hupvalues : ∀ t ∈ upvalues, t.Has k.shapes) :
    Gives program bound
      (analyze returnsOf proto.body (ofTypes proto args upvalues maxIterations)) k
      fun next after => next.proto = proto ∧
        (∀ slot < proto.paramCount, next.typing.Takes after.shapes slot (args[slot]?.getD .nil)) ∧
        (∀ i, next.typing.upvalue i = upvalues[i]?.getD .unknown) ∧
        BodyTyped after next.typing next.returnTypes proto.body := by
  refine (gives_analyzeFrom hret _ 0 h (has_ofTypes maxIterations hargs hupvalues)
    (h.inScope.body hproto)).mono fun next k₁ hev₁ ⟨hreaches, htyped⟩ =>
      ⟨hreaches.proto, fun slot hslot => ?_, fun i => ?_, htyped⟩
  · have hle := hreaches.le slot
    show next.varType slot = .unknown ∨ _
    rcases next.varType_eq_or slot with heq | heq
    · exact .inl heq
    · show _ ∨ (next.varType slot).canonical _ = _
      rw [heq]
      by_cases hlocal : slot < proto.localCount
      · rw [varState_ofTypes hlocal, if_pos hslot] at hle
        exact hle.read_of_fixed
      · rw [varState_ofTypes_of_le (by omega)] at hle
        rw [hle.eq_conflicted]
        exact .inl rfl
  · show next.upvalueTypes[i]?.getD .unknown = _
    rw [hreaches.upvalues]
    rfl

theorem run_findReturns_of_known {proto : Prototype} {types : List Ty}
    (h : k.returns.lookup proto.ref.id = some types) (maxIterations : Nat) :
    (findReturns returnsOf maxIterations proto).run k = (types, k) := by
  simp [findReturns, h]
  rfl

/-- The analysis that finds the return types of a prototype. -/
def weakest (proto : Prototype) (maxIterations : Nat) : Inference :=
  ofTypes proto (List.replicate proto.paramCount .unknown) proto.staticUpvalueTypes maxIterations

theorem run_findReturns_of_none {proto : Prototype} (h : k.returns.lookup proto.ref.id = none)
    (maxIterations : Nat) :
    (findReturns returnsOf maxIterations proto).run k =
      let found := (analyze returnsOf proto.body (weakest proto maxIterations)).run k
      (found.1.returnTypes,
        { found.2 with returns := (proto.ref.id, found.1.returnTypes) :: found.2.returns }) := by
  simp [findReturns, h]
  rfl

/-- Remembering the return types that were found for a prototype. -/
theorem evolves_remember (h : k.Sound program) {id : Nat} {types : List Ty}
    (hnone : k.returns.lookup id = none) (hok : ReturnsOk program k id types) :
    k.Evolves program { k with returns := (id, types) :: k.returns } := by
  have hgrows : k.Grows { k with returns := (id, types) :: k.returns } := by
    refine ⟨.refl _, fun {other found} hfound => ?_⟩
    have hne : other ≠ id := fun heq => by
      rw [heq, hnone] at hfound
      cases hfound
    rw [List.lookup_cons, beq_false_of_ne hne]
    exact hfound
  refine ⟨⟨h.forest, h.inScope, fun {other found} hfound => ?_⟩, hgrows⟩
  change List.lookup other ((id, types) :: k.returns) = some found at hfound
  by_cases heq : other = id
  · subst heq
    rw [List.lookup_cons, beq_self_eq_true] at hfound
    cases hfound
    exact hok.mono hgrows h.forest h.forest
  · rw [List.lookup_cons, beq_false_of_ne heq] at hfound
    exact (h.returns hfound).mono hgrows h.forest h.forest

/-- The return types that the weakest analysis finds are those of a typing. -/
theorem returnsOk_weakest (hret : returnsOf.Sound program bound) (h : k.Sound program)
    {proto : Prototype} (hproto : program.prototypes[bound]? = some proto) (maxIterations : Nat) :
    Gives program bound (analyze returnsOf proto.body (weakest proto maxIterations)) k
      fun next after => ReturnsOk program after (bound + 1) next.returnTypes := by
  refine (gives_analyze hret h hproto (List.replicate proto.paramCount .unknown) maxIterations
    (fun t ht => by rw [List.eq_of_mem_replicate ht]; trivial) (h.inScope.upvalues hproto)).mono
    fun next after _ ⟨hsame, hparams, hupvalues, htyped⟩ => ?_
  refine ⟨bound, proto, _, rfl, hproto, respects_typing hsame, fun slot hslot => ?_,
    hupvalues, htyped⟩
  have htakes := hparams slot hslot
  rw [List.getElem?_replicate, if_pos hslot] at htakes
  rcases htakes with heq | heq
  · exact heq
  · -- only the unknown type is written like the unknown type
    revert heq
    generalize Typing.slot _ slot = type
    cases type <;> simp [Ty.canonical, Ty.ofShape]

/-- Finding the return types of a prototype remembers them. -/
theorem gives_findReturns (hret : returnsOf.Sound program bound) (h : k.Sound program)
    {proto : Prototype} (hproto : program.prototypes[bound]? = some proto) (maxIterations : Nat) :
    Gives program (bound + 1) (findReturns returnsOf maxIterations proto) k
      fun types after => after.returns.lookup (bound + 1) = some types := by
  have hid : proto.ref.id = bound + 1 := h.inScope.id_eq hproto
  -- once the types are remembered, asking for them again is looking them up
  have hrecalls (hfound : ((findReturns returnsOf maxIterations proto).run k).2.returns.lookup
      (bound + 1) = some ((findReturns returnsOf maxIterations proto).run k).1) :
      Learn.Recalls program (findReturns returnsOf maxIterations proto) k := by
    intro later hev _
    rw [← hid] at hfound
    rw [run_findReturns_of_known (hev.grows.returns hfound)]
    exact ⟨rfl, .refl hev.sound⟩
  cases hlookup : k.returns.lookup (bound + 1) with
  | some types =>
    have hrun : (findReturns returnsOf maxIterations proto).run k = (types, k) :=
      run_findReturns_of_known (hid ▸ hlookup) maxIterations
    have hfound : ((findReturns returnsOf maxIterations proto).run k).2.returns.lookup
        (bound + 1) = some ((findReturns returnsOf maxIterations proto).run k).1 := by
      rw [hrun, hlookup]
    refine ⟨?_, fun _ => ?_, ?_, hrecalls hfound, hfound⟩
    · rw [hrun]
      exact .refl h
    · rw [hrun]
    · rw [hrun]
      exact .refl _
  | none =>
    have hweakest := returnsOk_weakest hret h hproto maxIterations
    have hrun := @run_findReturns_of_none returnsOf k proto (hid ▸ hlookup) maxIterations
    rw [hid] at hrun
    have hnone : ((analyze returnsOf proto.body (weakest proto maxIterations)).run k).2.returns.lookup
        (bound + 1) = none := by
      rw [hweakest.untouched (Nat.lt_succ_self bound), hlookup]
    have hremember := evolves_remember hweakest.evolves.sound hnone hweakest.post
    have hfound : ((findReturns returnsOf maxIterations proto).run k).2.returns.lookup
        (bound + 1) = some ((findReturns returnsOf maxIterations proto).run k).1 := by
      rw [hrun]
      show List.lookup (bound + 1) ((bound + 1, _) :: _) = _
      rw [List.lookup_cons, beq_self_eq_true]
    refine ⟨?_, fun {id} hlt => ?_, ?_, hrecalls hfound, hfound⟩
    · rw [hrun]
      exact hweakest.evolves.trans hremember
    · rw [hrun, ← hweakest.untouched (by omega : bound < id)]
      show List.lookup id ((bound + 1, _) :: _) = _
      rw [List.lookup_cons, beq_false_of_ne (by omega)]
    · rw [hrun]
      exact hweakest.conserves

end

/-- What is remembered about earlier prototypes stays true while return types are found. -/
theorem returnTypesBelow_sound (program : Program) (maxIterations : Nat) :
    ∀ bound : Nat, (returnTypesBelow program maxIterations bound).Sound program bound := by
  intro bound
  induction bound with
  | zero => exact fun ref k h => .pure h (.inr rfl)
  | succ bound ih =>
    intro ref k h
    rw [returnTypesBelow]
    split
    · next hid =>
      rw [Program.prototype?_eq hid, hid]
      cases hproto : program.prototypes[bound]? with
      | none => exact .pure h (.inr rfl)
      | some proto =>
        refine (gives_findReturns ih h hproto maxIterations).mono fun types k₁ _ hfound => .inl ?_
        exact hfound
    · have hbelow := ih ref k h
      exact ⟨hbelow.evolves, fun hlt => hbelow.untouched (by omega), hbelow.conserves,
        hbelow.recalls, hbelow.post⟩

/-- The return types that analysis finds for prototypes are remembered and true. -/
theorem returnTypesOf_sound (program : Program) (maxIterations : Nat) :
    (returnTypesOf program maxIterations).Sound program program.size :=
  returnTypesBelow_sound program maxIterations program.size

end Inference
end AdaptiveScript
