import AdaptiveScript.Inference
import AdaptiveScript.Proofs.Program.Scope

/-!
# Typings

What inference finds is a typing: a type for every local and every upvalue of a function,
under which every assignment of the body fits its target and every return fits the return
types.  This module says what that means without mentioning how typings are found, so it
reads like the rules of a type system.

A typing is judged under what is known: the shapes, since two table types are the same as
soon as their shapes were merged, and the return types of prototypes, since a call through
a value of a known prototype has the types found for that prototype.

## Time

Knowledge only grows (`Knowledge.Grows`), and every judgement here survives growth:
`HasType.mono`, `Flows.mono`, `ReturnsOk.mono`.  So a typing found before some other
function was analysed can be used after it.

## What is remembered is true

`Knowledge.Sound` says that shapes form a forest, that the shapes of all table constructors
of the program exist, and that return types remembered for a prototype are those of some
typing of its body with parameters of any type.
-/

namespace AdaptiveScript

/-! ## Growth of knowledge -/

namespace Knowledge

/-- What time does to knowledge: shapes grow, and return types stay as they were found. -/
structure Grows (before after : Knowledge) : Prop where
  shapes : before.shapes.Grows after.shapes
  returns : ∀ {id : Nat} {types : List Ty}, before.returns.lookup id = some types →
    after.returns.lookup id = some types

namespace Grows

theorem refl (k : Knowledge) : k.Grows k :=
  ⟨Shapes.Grows.refl _, fun h => h⟩

theorem trans {a b c : Knowledge} (hab : a.Grows b) (hbc : b.Grows c) : a.Grows c :=
  ⟨hab.shapes.trans hbc.shapes, fun h => hbc.returns (hab.returns h)⟩

end Grows
end Knowledge

/-! ## Typings of expressions -/

/-- The types of the locals and upvalues of a function. -/
structure Typing where
  /-- The type of each local. -/
  slot : Nat → Ty
  /-- The type of each upvalue. -/
  upvalue : Nat → Ty

/-- The shapes that a typing names exist. -/
structure Typing.Has (Γ : Typing) (shapes : Shapes) : Prop where
  slot : ∀ index, (Γ.slot index).Has shapes
  upvalue : ∀ index, (Γ.upvalue index).Has shapes

theorem Typing.Has.mono {Γ : Typing} {before after : Shapes} (hg : before.Grows after)
    (h : Γ.Has before) : Γ.Has after :=
  ⟨fun index => (h.slot index).mono hg, fun index => (h.upvalue index).mono hg⟩

/-- Nothing is known of the locals that closures share. -/
def Typing.Respects (Γ : Typing) (proto : Prototype) : Prop :=
  ∀ {slot : Nat}, proto.isCaptured slot = true → Γ.slot slot = .unknown

/-- The types of an expression.  Every expression has the unknown type; a constructor has
every type that names the class of its shape. -/
inductive HasType (k : Knowledge) (Γ : Typing) : Expr → Ty → Prop
  | any (e : Expr) : HasType k Γ e .unknown
  | literal (l : Literal) : HasType k Γ (.literal l) l.type
  | slot (index : Nat) : HasType k Γ (.slot index) (Γ.slot index)
  | upvalue (index : Nat) : HasType k Γ (.upvalue index) (Γ.upvalue index)
  | binary {op : BinOp} {left right : Expr} {l r : Ty} :
    HasType k Γ left l → HasType k Γ right r →
      HasType k Γ (.binary op left right) (Ty.binaryType op l r)
  | logical {op : LogicalOp} {left right : Expr} {l r : Ty} :
    HasType k Γ left l → HasType k Γ right r → HasType k Γ (.logical op left right) (l.join r)
  | unary {op : UnOp} {operand : Expr} {t : Ty} :
    HasType k Γ operand t → HasType k Γ (.unary op operand) (Ty.unaryType op t)
  | call {callee : Expr} {args : List Expr} {ref : PrototypeRef} {types : List Ty} :
    HasType k Γ callee (.function ref) → k.returns.lookup ref.id = some types →
      HasType k Γ (.call callee args) (types.headD .nil)
  | function {ref : PrototypeRef} {captures : List Capture} :
    HasType k Γ (.function ref captures) (.function ref)
  | table {shape named : ShapeId} {entries : List Entry} :
    k.shapes.resolve named = k.shapes.resolve shape → k.shapes.Has named →
      HasType k Γ (.table shape entries) (.tableOf named)

theorem HasType.mono {before after : Knowledge} (hg : before.Grows after)
    (hb : before.shapes.Forest) (ha : after.shapes.Forest) {Γ : Typing} {e : Expr} {type : Ty}
    (h : HasType before Γ e type) : HasType after Γ e type := by
  induction h with
  | any e => exact .any e
  | literal l => exact .literal l
  | slot index => exact .slot index
  | upvalue index => exact .upvalue index
  | binary _ _ ihl ihr => exact .binary ihl ihr
  | logical _ _ ihl ihr => exact .logical ihl ihr
  | unary _ ih => exact .unary ih
  | call _ hreturns ih => exact .call ih (hg.returns hreturns)
  | function => exact .function
  | table hresolve hhas =>
    exact .table (hg.shapes.resolve_congr hb ha hresolve) (hg.shapes.has hhas)

/-! ## Typings of statements -/

/-- A local of the typing takes values of a type. -/
def Typing.Takes (Γ : Typing) (shapes : Shapes) (slot : Nat) (type : Ty) : Prop :=
  Γ.slot slot = .unknown ∨ (Γ.slot slot).canonical shapes = type.canonical shapes

theorem Ty.canonical_congr {before after : Shapes} (hg : before.Grows after)
    (hb : before.Forest) (ha : after.Forest) {a b : Ty}
    (h : a.canonical before = b.canonical before) : a.canonical after = b.canonical after := by
  cases a <;> cases b <;> simp [canonical, ofShape] at h ⊢ <;>
    first | exact h | exact hg.resolve_congr hb ha h

theorem Typing.Takes.mono {before after : Shapes} (hg : before.Grows after) (hb : before.Forest)
    (ha : after.Forest) {Γ : Typing} {slot : Nat} {type : Ty} (h : Γ.Takes before slot type) :
    Γ.Takes after slot type :=
  h.imp_right (Ty.canonical_congr hg hb ha)

/-- The types at every place of one list are those of another or unknown; what is missing
is nil. -/
def Covers (types others : List Ty) : Prop :=
  ∀ index : Nat, types[index]?.getD .nil = .unknown ∨
    types[index]?.getD .nil = others[index]?.getD .nil

theorem Covers.refl (types : List Ty) : Covers types types :=
  fun _ => .inr rfl

theorem Covers.trans {a b c : List Ty} (hab : Covers a b) (hbc : Covers b c) : Covers a c := by
  intro index
  rcases hab index with h | h
  · exact .inl h
  · rw [h]
    exact hbc index

/-- The types of some expressions, one each. -/
inductive HasTypes (k : Knowledge) (Γ : Typing) : List Expr → List Ty → Prop
  | nil : HasTypes k Γ [] []
  | cons {e : Expr} {es : List Expr} {type : Ty} {types : List Ty} :
    HasType k Γ e type → HasTypes k Γ es types → HasTypes k Γ (e :: es) (type :: types)

theorem HasTypes.mono {before after : Knowledge} (hg : before.Grows after)
    (hb : before.shapes.Forest) (ha : after.shapes.Forest) {Γ : Typing} {es : List Expr}
    {types : List Ty} (h : HasTypes before Γ es types) : HasTypes after Γ es types := by
  induction h with
  | nil => exact .nil
  | cons he _ ih => exact .cons (he.mono hg hb ha) ih

/-- The types of what a return statement returns.  A call that stands alone passes on all
its results. -/
inductive ReturnTypes (k : Knowledge) (Γ : Typing) : List Expr → List Ty → Prop
  | forward {callee : Expr} {args : List Expr} {ref : PrototypeRef} {types : List Ty} :
    HasType k Γ callee (.function ref) → k.returns.lookup ref.id = some types →
      ReturnTypes k Γ [.call callee args] types
  | values {es : List Expr} {types : List Ty} :
    HasTypes k Γ es types → ReturnTypes k Γ es types

theorem ReturnTypes.mono {before after : Knowledge} (hg : before.Grows after)
    (hb : before.shapes.Forest) (ha : after.shapes.Forest) {Γ : Typing} {es : List Expr}
    {types : List Ty} (h : ReturnTypes before Γ es types) : ReturnTypes after Γ es types := by
  cases h with
  | forward hcallee hreturns => exact .forward (hcallee.mono hg hb ha) (hg.returns hreturns)
  | values htypes => exact .values (htypes.mono hg hb ha)

/-- The type of the step of a numeric loop. -/
def StepType (k : Knowledge) (Γ : Typing) (step : Option Expr) (type : Ty) : Prop :=
  match step with
  | some e => HasType k Γ e type
  | none => type = .integer

theorem StepType.mono {before after : Knowledge} (hg : before.Grows after)
    (hb : before.shapes.Forest) (ha : after.shapes.Forest) {Γ : Typing} {step : Option Expr}
    {type : Ty} (h : StepType before Γ step type) : StepType after Γ step type := by
  cases step with
  | none => exact h
  | some e => exact HasType.mono hg hb ha h

/-- What a statement assigns fits its target, and what it returns fits the return types.
The statements in its blocks are not looked at. -/
def Flows (k : Knowledge) (Γ : Typing) (returns : List Ty) : Stmt → Prop
  | .declare slot (some e) => ∃ type, HasType k Γ e type ∧ Γ.Takes k.shapes slot type
  | .declare slot none => Γ.Takes k.shapes slot .nil
  | .assign slot e => ∃ type, HasType k Γ e type ∧ Γ.Takes k.shapes slot type
  | .forLoop slot start limit step _ => ∃ s l d, HasType k Γ start s ∧ HasType k Γ limit l ∧
    StepType k Γ step d ∧ Γ.Takes k.shapes slot (Ty.loopType s l d)
  | .ret values => ∃ types, ReturnTypes k Γ values types ∧ Covers returns types
  | _ => True

theorem Flows.mono {before after : Knowledge} (hg : before.Grows after)
    (hb : before.shapes.Forest) (ha : after.shapes.Forest) {Γ : Typing} {returns : List Ty}
    {s : Stmt} (h : Flows before Γ returns s) : Flows after Γ returns s := by
  cases s with
  | declare slot value =>
    cases value with
    | none => exact Typing.Takes.mono hg.shapes hb ha h
    | some e =>
      obtain ⟨type, htype, htakes⟩ := h
      exact ⟨type, htype.mono hg hb ha, htakes.mono hg.shapes hb ha⟩
  | assign slot e =>
    obtain ⟨type, htype, htakes⟩ := h
    exact ⟨type, htype.mono hg hb ha, htakes.mono hg.shapes hb ha⟩
  | forLoop slot start limit step body =>
    obtain ⟨s, l, d, hs, hl, hd, htakes⟩ := h
    exact ⟨s, l, d, hs.mono hg hb ha, hl.mono hg hb ha, hd.mono hg hb ha,
      htakes.mono hg.shapes hb ha⟩
  | ret values =>
    obtain ⟨types, htypes, hcovers⟩ := h
    exact ⟨types, htypes.mono hg hb ha, hcovers⟩
  | _ => trivial

/-- A typing of a body, which returns nothing where it can be left at its end. -/
structure BodyTyped (k : Knowledge) (Γ : Typing) (returns : List Ty) (body : List Stmt) :
    Prop where
  has : Γ.Has k.shapes
  returns_has : ∀ type ∈ returns, type.Has k.shapes
  flows : Stmt.BlockEvery (Flows k Γ returns) body
  atEnd : Stmt.blockFallsThrough body = true → Covers returns []

theorem BodyTyped.mono {before after : Knowledge} (hg : before.Grows after)
    (hb : before.shapes.Forest) (ha : after.shapes.Forest) {Γ : Typing} {returns : List Ty}
    {body : List Stmt} (h : BodyTyped before Γ returns body) :
    BodyTyped after Γ returns body where
  has := h.has.mono hg.shapes
  returns_has type htype := (h.returns_has type htype).mono hg.shapes
  flows := h.flows.mono fun _ hs => hs.mono hg hb ha
  atEnd := h.atEnd

/-! ## Return types of prototypes -/

/-- Return types of a prototype by number: some typing of its body has them, with
parameters of any type and upvalues of the types that all closures guarantee. -/
def ReturnsOk (program : Program) (k : Knowledge) (id : Nat) (types : List Ty) : Prop :=
  ∃ (index : Nat) (proto : Prototype) (Γ : Typing), id = index + 1 ∧
    program.prototypes[index]? = some proto ∧ Γ.Respects proto ∧
    (∀ slot < proto.paramCount, Γ.slot slot = .unknown) ∧
    (∀ i, Γ.upvalue i = proto.staticUpvalueTypes[i]?.getD .unknown) ∧
    BodyTyped k Γ types proto.body

theorem ReturnsOk.mono {program : Program} {before after : Knowledge} (hg : before.Grows after)
    (hb : before.shapes.Forest) (ha : after.shapes.Forest) {id : Nat} {types : List Ty}
    (h : ReturnsOk program before id types) : ReturnsOk program after id types := by
  obtain ⟨index, proto, Γ, hid, hproto, hrespects, hparams, hupvalues, hbody⟩ := h
  exact ⟨index, proto, Γ, hid, hproto, hrespects, hparams, hupvalues, hbody.mono hg hb ha⟩

theorem ReturnsOk.has {program : Program} {k : Knowledge} {id : Nat} {types : List Ty}
    (h : ReturnsOk program k id types) : ∀ type ∈ types, type.Has k.shapes := by
  obtain ⟨_, _, _, _, _, _, _, _, hbody⟩ := h
  exact hbody.returns_has

namespace Knowledge

/-- What is known about a program is true. -/
structure Sound (program : Program) (k : Knowledge) : Prop where
  forest : k.shapes.Forest
  inScope : program.Scoped k.shapes
  returns : ∀ {id : Nat} {types : List Ty}, k.returns.lookup id = some types →
    ReturnsOk program k id types

/-- Before anything was learnt, what is known is true. -/
theorem Sound.of_blank {program : Program} {shapes : Shapes}
    (hblank : ∀ id, shapes.state id = .blank) (hscope : program.Scoped shapes) :
    Sound program ⟨shapes, [], #[]⟩ :=
  ⟨Shapes.forest_of_blank hblank, hscope, fun hfound => by cases hfound⟩

/-- The knowledge after an operation: still true, and grown from that before. -/
structure Evolves (program : Program) (before after : Knowledge) : Prop where
  sound : after.Sound program
  grows : before.Grows after

namespace Evolves

variable {program : Program}

theorem refl {k : Knowledge} (h : k.Sound program) : k.Evolves program k :=
  ⟨h, Grows.refl k⟩

theorem trans {a b c : Knowledge} (hab : a.Evolves program b) (hbc : b.Evolves program c) :
    a.Evolves program c :=
  ⟨hbc.sound, hab.grows.trans hbc.grows⟩

/-- An operation on shapes alone. -/
theorem of_shapes {before after : Knowledge} (h : before.Sound program)
    (hshapes : before.shapes.Evolves after.shapes) (hreturns : after.returns = before.returns) :
    before.Evolves program after := by
  have hgrows : before.Grows after := ⟨hshapes.grows, fun hr => by rw [hreturns, hr]⟩
  refine ⟨⟨hshapes.forest, h.inScope.mono hshapes.grows, fun hr => ?_⟩, hgrows⟩
  rw [hreturns] at hr
  exact (h.returns hr).mono hgrows h.forest hshapes.forest

end Evolves
end Knowledge
end AdaptiveScript
