import AdaptiveScript.Proofs.Inference.Consistency
import AdaptiveScript.Proofs.Program.Captures
import AdaptiveScript.Proofs.Shape.History

/-!
# The types of expressions when nothing is left to be found

Inference learns while it goes: it asks for return types, and finding them may merge shapes.
Once the return types that an expression asks for are there, inference only looks things up.
`Inference.reading` gives the type that it then comes to.  It is a function of the source, without
any state: what it knows about shapes and prototypes is read from one stage of an analysis.

An expression is settled (`Inference.Settled`) if every call in it goes to a value of no known
prototype, or to one whose return types are remembered.  For settled expressions inference gives
the reading (`settles_infer`).  This holds with any knowledge that is like that of the stage
(`Knowledge.Alike`): keys of shapes, frozen shapes and the journal may be others.
-/

namespace AdaptiveScript

/-! ## Knowledge that gives the same types -/

namespace Knowledge

/-- Every shape has the same representative, and the same return types are remembered. -/
structure Alike (k other : Knowledge) : Prop where
  resolve : ∀ shape : ShapeId, other.shapes.resolve shape = k.shapes.resolve shape
  returns : other.returns = k.returns

namespace Alike

variable {k other : Knowledge}

theorem refl (k : Knowledge) : k.Alike k :=
  ⟨fun _ => rfl, rfl⟩

/-- The shapes may be changed as long as every shape keeps its representative. -/
theorem of_resolve (h : k.Alike other) {next : Knowledge}
    (hresolve : ∀ shape, next.shapes.resolve shape = other.shapes.resolve shape)
    (hreturns : next.returns = other.returns) : k.Alike next :=
  ⟨fun shape => (hresolve shape).trans (h.resolve shape), hreturns.trans h.returns⟩

end Alike
end Knowledge

namespace Learn

variable {α β : Type} {k : Knowledge}

/-- A computation that is started with knowledge like `k` ends with such knowledge, and its result
has a property. -/
def Settles (k : Knowledge) (x : Learn α) (P : α → Prop) : Prop :=
  ∀ ⦃now : Knowledge⦄, k.Alike now → k.Alike (x.run now).2 ∧ P (x.run now).1

theorem Settles.pure {a : α} {P : α → Prop} (h : P a) : Settles k (pure a) P :=
  fun _ hnow => ⟨hnow, h⟩

theorem Settles.bind {x : Learn α} {f : α → Learn β} {P : α → Prop} {Q : β → Prop}
    (hx : Settles k x P) (hf : ∀ a, P a → Settles k (f a) Q) : Settles k (x >>= f) Q :=
  fun _ hnow => hf _ (hx hnow).2 (hx hnow).1

theorem Settles.mono {x : Learn α} {P Q : α → Prop} (hx : Settles k x P) (h : ∀ a, P a → Q a) :
    Settles k x Q :=
  fun _ hnow => ⟨(hx hnow).1, h _ (hx hnow).2⟩

theorem settles_note (event : Event) : Settles k (note event) fun _ => True :=
  fun _ hnow => ⟨hnow.of_resolve (fun _ => rfl) rfl, trivial⟩

theorem settles_amend (shape : ShapeId) (key : String) (type : Ty) :
    Settles k (amend shape key type) fun _ => True :=
  fun _ hnow => ⟨hnow.of_resolve (Shapes.resolve_amend shape key type) rfl, trivial⟩

theorem settles_amendUnknown (shape : ShapeId) : Settles k (amendUnknown shape) fun _ => True :=
  fun _ hnow => ⟨hnow.of_resolve (Shapes.resolve_amendUnknown shape) rfl, trivial⟩

theorem settles_tableType (shape : ShapeId) :
    Settles k (tableType shape) (· = Ty.ofShape k.shapes shape) :=
  fun _ hnow => ⟨hnow, congrArg Ty.tableOf (hnow.resolve shape)⟩

/-- Freezing a shape does not change what it is called. -/
theorem settles_compileShape (shape : ShapeId) : Settles k (compileShape shape) fun _ => True := by
  intro now hnow
  obtain ⟨-, hshapes, hreturns⟩ := run_compileShape now shape
  refine ⟨hnow.of_resolve (fun id => ?_) hreturns, trivial⟩
  rw [hshapes]
  split
  · rfl
  · exact Shapes.resolve_freeze shape id

end Learn

namespace Inference

open Learn (Settles)

/-! ## Readings -/

section

variable (returnsOf : ReturnsOf) (stage : Stage)

/-- The type of an expression under the types of locals and upvalues, the shapes and the return
types of a stage. -/
def reading : Expr → Ty
  | .literal l => l.type
  | .slot index => stage.1.varType index
  | .upvalue index => stage.1.upvalueType index
  | .global _ => .unknown
  | .binary op left right => Ty.binaryType op (reading left) (reading right)
  | .logical _ left right => (reading left).join (reading right)
  | .unary op operand => Ty.unaryType op (reading operand)
  | .index _ _ => .unknown
  | .call callee _ =>
    firstType ((reading callee).prototype?.map fun ref => ((returnsOf ref).run stage.2).1)
  | .function ref _ => .function ref
  | .table shape _ => .ofShape stage.2.shapes shape

/-- Asking for the return types of a prototype finds nothing new. -/
def Knows (ref : PrototypeRef) : Prop :=
  Settles stage.2 (returnsOf ref) (· = ((returnsOf ref).run stage.2).1)

/-- Every call in an expression goes to a value whose prototype is not known, or is one whose
return types are remembered. -/
def Settled (e : Expr) : Prop :=
  ∀ ⦃callee : Expr⦄ ⦃args : List Expr⦄, (Expr.call callee args).Occurs e →
    ∀ ref ∈ (reading returnsOf stage callee).prototype?, Knows returnsOf stage ref

end

section

variable {returnsOf : ReturnsOf} {stage : Stage} {e : Expr}

theorem Settled.part (h : Settled returnsOf stage e) {part : Expr} (hpart : part ∈ e.parts) :
    Settled returnsOf stage part :=
  fun _ _ hoccurs => h (.inPart hpart hoccurs)

theorem Settled.of_occurs (h : Settled returnsOf stage e) {inner : Expr} (hinner : inner.Occurs e) :
    Settled returnsOf stage inner := by
  induction hinner with
  | self => exact h
  | inPart hpart _ ih => exact ih (h.part hpart)

/-- An expression is settled if its parts are, and if it is no call. -/
theorem settled_of_parts (hcall : e.isCall = false)
    (hparts : ∀ part ∈ e.parts, Settled returnsOf stage part) : Settled returnsOf stage e := by
  intro callee args hoccurs
  cases hoccurs with
  | self => cases hcall
  | inPart hpart hinner => exact hparts _ hpart hinner

theorem settled_call {callee : Expr} {args : List Expr}
    (hcallee : Settled returnsOf stage callee) (hargs : ∀ arg ∈ args, Settled returnsOf stage arg)
    (hknows : ∀ ref ∈ (reading returnsOf stage callee).prototype?, Knows returnsOf stage ref) :
    Settled returnsOf stage (.call callee args) := by
  intro callee' args' hoccurs
  cases hoccurs with
  | self => exact hknows
  | inPart hpart hinner =>
    rcases List.mem_cons.mp hpart with rfl | harg
    · exact hcallee hinner
    · exact hargs _ harg hinner

theorem settled_literal (l : Literal) : Settled returnsOf stage (.literal l) :=
  settled_of_parts rfl fun _ h => absurd h List.not_mem_nil

theorem settled_of_constantKey? {key : Expr} {name : String} (h : key.constantKey? = some name) :
    Settled returnsOf stage key := by
  rw [Expr.eq_of_constantKey? h]
  exact settled_literal _

end

/-! ## Inference gives the reading -/

section

variable {returnsOf : ReturnsOf} {stage : Stage}

theorem settles_callTypes {type : Ty} (h : ∀ ref ∈ type.prototype?, Knows returnsOf stage ref) :
    Settles stage.2 (callTypes returnsOf type)
      (· = type.prototype?.map fun ref => ((returnsOf ref).run stage.2).1) := by
  unfold callTypes
  cases hproto : type.prototype? with
  | none => exact .pure rfl
  | some ref =>
    refine Settles.bind (h ref hproto) fun types htypes => .pure ?_
    rw [htypes]
    rfl

/-- The type of a call whose callee has been read. -/
theorem settles_callType {callee : Expr} {args : List Expr}
    (h : Settled returnsOf stage (.call callee args)) :
    Settles stage.2 (callType returnsOf (reading returnsOf stage callee))
      (· = reading returnsOf stage (.call callee args)) := by
  refine Settles.bind (settles_callTypes (h .self)) fun found hfound => .pure ?_
  rw [hfound, reading]

mutual

/-- For a settled expression inference gives the reading, and nothing new is found. -/
theorem settles_infer : ∀ e : Expr, Settled returnsOf stage e →
    Settles stage.2 (infer returnsOf stage.1 e) (· = reading returnsOf stage e)
  | .literal _, _ => by
    rw [infer]
    exact .pure (by rw [reading])
  | .slot _, _ => by
    rw [infer]
    exact .pure (by rw [reading])
  | .upvalue _, _ => by
    rw [infer]
    exact .pure (by rw [reading])
  | .global _, _ => by
    rw [infer]
    exact .pure (by rw [reading])
  | .binary _ left right, h => by
    rw [infer]
    refine (settles_infer left (h.part (List.mem_pair.mpr (.inl rfl)))).bind fun l hl => ?_
    refine (settles_infer right (h.part (List.mem_pair.mpr (.inr rfl)))).bind fun r hr => ?_
    exact .pure (by rw [reading, hl, hr])
  | .logical _ left right, h => by
    rw [infer]
    refine (settles_infer left (h.part (List.mem_pair.mpr (.inl rfl)))).bind fun l hl => ?_
    refine (settles_infer right (h.part (List.mem_pair.mpr (.inr rfl)))).bind fun r hr => ?_
    exact .pure (by rw [reading, hl, hr])
  | .unary _ operand, h => by
    rw [infer]
    refine (settles_infer operand (h.part (List.mem_singleton.mpr rfl))).bind fun t ht => ?_
    exact .pure (by rw [reading, ht])
  | .index target key, h => by
    rw [infer]
    refine (settles_infer target (h.part (List.mem_pair.mpr (.inl rfl)))).bind fun _ _ => ?_
    refine (settles_infer key (h.part (List.mem_pair.mpr (.inr rfl)))).bind fun _ _ => ?_
    exact .pure (by rw [reading])
  | .call callee args, h => by
    rw [infer]
    refine (settles_infer callee (h.part (List.mem_cons_self ..))).bind fun type htype => ?_
    refine (settles_inferAll args fun arg harg => h.part (List.mem_cons_of_mem _ harg)).bind
      fun _ _ => ?_
    rw [htype]
    exact settles_callType h
  | .function _ _, _ => by
    rw [infer]
    exact .pure (by rw [reading])
  | .table shape entries, h => by
    rw [infer]
    refine (settles_inferEntries shape entries fun part hpart => h.part hpart).bind fun _ _ => ?_
    refine (Learn.settles_tableType shape).mono fun type htype => ?_
    rw [htype, reading]

theorem settles_inferAll : ∀ es : List Expr, (∀ e ∈ es, Settled returnsOf stage e) →
    Settles stage.2 (inferAll returnsOf stage.1 es) fun _ => True
  | [], _ => by
    rw [inferAll]
    exact .pure trivial
  | e :: es, h => by
    rw [inferAll]
    refine (settles_infer e (h e (List.mem_cons_self ..))).bind fun _ _ => ?_
    refine (settles_inferAll es fun other hother => h other (List.mem_cons_of_mem _ hother)).bind
      fun _ _ => .pure trivial

theorem settles_inferEntries (shape : ShapeId) : ∀ entries : List Entry,
    (∀ part ∈ entries.flatMap Entry.parts, Settled returnsOf stage part) →
      Settles stage.2 (inferEntries returnsOf stage.1 shape entries) fun _ => True
  | [], _ => by
    rw [inferEntries]
    exact .pure trivial
  | .named name value :: rest, h => by
    rw [List.flatMap_cons, List.forall_mem_append] at h
    rw [inferEntries]
    refine (settles_infer value (h.1 value (List.mem_singleton.mpr rfl))).bind fun type _ => ?_
    refine (Learn.settles_amend shape name type).bind fun _ _ => ?_
    exact settles_inferEntries shape rest h.2
  | .keyed key value :: rest, h => by
    rw [List.flatMap_cons, List.forall_mem_append] at h
    have hvalue := h.1 value (List.mem_pair.mpr (.inr rfl))
    rw [inferEntries]
    cases key.constantKey? with
    | some name =>
      refine (settles_infer value hvalue).bind fun type _ => ?_
      refine (Learn.settles_amend shape name type).bind fun _ _ => ?_
      exact settles_inferEntries shape rest h.2
    | none =>
      refine (settles_infer key (h.1 key (List.mem_pair.mpr (.inl rfl)))).bind fun _ _ => ?_
      refine (settles_infer value hvalue).bind fun _ _ => ?_
      refine (Learn.settles_amendUnknown shape).bind fun _ _ => ?_
      exact settles_inferEntries shape rest h.2
  | .positional value :: rest, h => by
    rw [List.flatMap_cons, List.forall_mem_append] at h
    rw [inferEntries]
    refine (settles_infer value (h.1 value (List.mem_singleton.mpr rfl))).bind fun _ _ => ?_
    refine (Learn.settles_amendUnknown shape).bind fun _ _ => ?_
    exact settles_inferEntries shape rest h.2

end

end
end Inference
end AdaptiveScript
