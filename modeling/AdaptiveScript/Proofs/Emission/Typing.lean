import AdaptiveScript.Proofs.Code.Boxed
import AdaptiveScript.Proofs.Emission.Faults
import AdaptiveScript.Proofs.Inference.LastPass

/-!
# The types of emitted code

The rules that give an expression its type stand in two places.  Inference follows them while a
body is analysed, and emission follows them again while code is made.  In between, emission
freezes shapes and asks for return types.

Both come to the reading of the expression (`Inference.reading`).  For inference this is
`Inference.settles_infer`; for emission it is `Emit.settles_expr`.
-/

namespace AdaptiveScript

/-- Code of a type, in the representation of that type: numbers and booleans are unboxed if and
only if the type says that they are numbers or booleans. -/
structure Emitted.Realizes (c : Emitted) (type : Ty) : Prop where
  type_eq : c.type = type
  int_iff : c.rep = .int ↔ type = .integer
  float_iff : c.rep = .float ↔ type = .float
  bool_iff : c.rep = .bool ↔ type = .boolean
  boxed_iff : c.rep = .value ↔ type ≠ .integer ∧ type ≠ .float ∧ type ≠ .boolean

theorem Emitted.Fits.realizes {c : Emitted} (h : c.Fits) : c.Realizes c.type := by
  have hrep : c.rep = c.type.rep := h
  refine ⟨rfl, ?_, ?_, ?_, ?_⟩ <;> rw [hrep] <;> cases c.type <;> simp [Ty.rep]

namespace Emit

open Inference (Settled reading)

variable {α β : Type} {k : Knowledge}

/-- Emission that is started with knowledge like `k` ends with such knowledge, whether it succeeds
or not, and what it gives has a property. -/
abbrev Settles (k : Knowledge) (x : Emit α) (P : α → Prop) : Prop :=
  Preserves (fun s : Emitter => k.Alike s.knowledge) x P

/-! ## The steps of emission -/

theorem settles_learn {x : Learn α} {P : α → Prop} (h : Learn.Settles k x P) :
    Settles k (learn x) P := by
  intro s hs
  exact ⟨(h hs).1, fun a heq => by cases heq; exact (h hs).2⟩

theorem settles_layout (shape : ShapeId) : Settles k (layout shape) fun _ => True := by
  refine (settles_learn (Learn.settles_compileShape shape)).bind fun l _ => ?_
  exact fun s hs => ⟨hs, fun _ _ => trivial⟩

theorem settles_call (callee : Emitted) (args : List Emitted) (truncate : Bool) :
    Settles k (call callee args truncate) fun _ => True :=
  fun _ hs => ⟨hs, fun _ _ => trivial⟩

theorem settles_literal (l : Literal) :
    Settles k (literal l) fun c => c.type = l.type ∧ c.Fits := by
  cases l with
  | str s => exact fun _ hs => ⟨hs, fun _ heq => by cases heq; exact ⟨rfl, rfl⟩⟩
  | _ => exact .pure ⟨rfl, rfl⟩

theorem settles_field? (target : Ty) (key : Expr) :
    Settles k (field? target key) fun _ => True := by
  unfold field?
  split
  · exact (settles_layout _).bind fun l _ => .pure trivial
  · exact .pure trivial

variable (scope : Scope)

theorem settles_announce (form : String) : Settles k (scope.announce form) fun _ => True :=
  settles_learn (Learn.settles_note _)

theorem settles_checkSlot (slot : Nat) : Settles k (scope.checkSlot slot) fun _ => True := by
  unfold Scope.checkSlot
  split
  · exact .pure trivial
  · exact .throw

theorem settles_checkUpvalue (index : Nat) :
    Settles k (scope.checkUpvalue index) fun _ => True := by
  unfold Scope.checkUpvalue
  split
  · exact .pure trivial
  · exact .throw

theorem settles_checkCaptures (captures : List Capture) :
    Settles k (captures.forM scope.checkCapture) fun _ => True := by
  induction captures with
  | nil => exact .pure trivial
  | cons c rest ih =>
    have hfirst : Settles k (scope.checkCapture c) fun _ => True := by
      cases c with
      | slot index => exact settles_checkSlot scope index
      | upvalue index => exact settles_checkUpvalue scope index
    exact hfirst.bind fun _ _ => ih

/-! ## Expressions -/

mutual

/-- Code of a settled expression has the type that is read, in the representation of the type. -/
theorem settles_expr : ∀ e : Expr, Settled scope.returnsOf (scope.types, k) e →
    Settles k (expr scope e) fun c =>
      c.type = reading scope.returnsOf (scope.types, k) e ∧ c.Fits
  | .literal l, _ => by
    rw [expr, reading]
    exact (settles_announce scope _).bind fun _ _ => settles_literal l
  | .slot index, _ => by
    rw [expr, reading]
    refine (settles_announce scope _).bind fun _ _ => ?_
    refine (settles_checkSlot scope index).bind fun _ _ => ?_
    exact .pure ⟨Emitted.type_narrow _ _, Emitted.fits_narrow _ _⟩
  | .upvalue index, _ => by
    rw [expr, reading]
    refine (settles_announce scope _).bind fun _ _ => ?_
    refine (settles_checkUpvalue scope index).bind fun _ _ => ?_
    exact .pure ⟨Emitted.type_narrow _ _, Emitted.fits_narrow _ _⟩
  | .global name, _ => by
    rw [expr, reading]
    exact (settles_announce scope _).bind fun _ _ => .pure ⟨rfl, rfl⟩
  | .binary op left right, h => by
    rw [expr, reading]
    refine (settles_announce scope _).bind fun _ _ => ?_
    refine (settles_expr left (h.part (List.mem_pair.mpr (.inl rfl)))).bind fun l hl => ?_
    refine (settles_expr right (h.part (List.mem_pair.mpr (.inr rfl)))).bind fun r hr => ?_
    exact .pure ⟨by rw [Emitted.type_binary, hl.1, hr.1], Emitted.fits_binary op l r⟩
  | .logical op left right, h => by
    rw [expr, reading]
    refine (settles_announce scope _).bind fun _ _ => ?_
    refine (settles_expr left (h.part (List.mem_pair.mpr (.inl rfl)))).bind fun l hl => ?_
    refine (settles_expr right (h.part (List.mem_pair.mpr (.inr rfl)))).bind fun r hr => ?_
    exact .pure ⟨by rw [Emitted.type_logical, hl.1, hr.1], Emitted.fits_logical op hl.2 hr.2⟩
  | .unary op operand, h => by
    rw [expr, reading]
    refine (settles_announce scope _).bind fun _ _ => ?_
    refine (settles_expr operand (h.part (List.mem_singleton.mpr rfl))).bind fun c hc => ?_
    exact .pure ⟨by rw [Emitted.type_unary, hc.1], Emitted.fits_unary op hc.2⟩
  | .index target key, h => by
    rw [expr, reading]
    refine (settles_announce scope _).bind fun _ _ => ?_
    refine (settles_expr target (h.part (List.mem_pair.mpr (.inl rfl)))).bind fun t _ => ?_
    refine (settles_field? t.type key).bind fun field _ => ?_
    cases field with
    | some f => exact .pure ⟨rfl, rfl⟩
    | none =>
      refine (settles_expr key (h.part (List.mem_pair.mpr (.inr rfl)))).bind fun c _ => ?_
      exact .pure ⟨rfl, rfl⟩
  | .call callee args, h => by
    rw [expr]
    refine (settles_announce scope _).bind fun _ _ => ?_
    refine (settles_expr callee (h.part (List.mem_cons_self ..))).bind fun c hc => ?_
    refine (settles_exprs args fun arg harg => h.part (List.mem_cons_of_mem _ harg)).bind
      fun cs _ => ?_
    refine (settles_call c cs true).bind fun code _ => ?_
    rw [hc.1]
    refine (settles_learn (Inference.settles_callType h)).bind fun type htype => ?_
    exact .pure ⟨(Emitted.type_narrow _ _).trans htype, Emitted.fits_narrow _ _⟩
  | .function ref captures, _ => by
    rw [expr, reading]
    refine (settles_announce scope _).bind fun _ _ => ?_
    split
    · exact .throw
    · exact (settles_checkCaptures scope captures).bind fun _ _ => .pure ⟨rfl, rfl⟩
  | .table shape entries, h => by
    rw [expr, reading]
    refine (settles_announce scope _).bind fun _ _ => ?_
    refine (settles_layout shape).bind fun l _ => ?_
    refine (settles_inits l entries fun part hpart => h.part hpart).bind fun is _ => ?_
    refine (settles_learn (Learn.settles_tableType shape)).bind fun type htype => ?_
    exact .pure ⟨htype, by rw [htype]; rfl⟩

theorem settles_exprs : ∀ es : List Expr,
    (∀ e ∈ es, Settled scope.returnsOf (scope.types, k) e) →
      Settles k (exprs scope es) fun _ => True
  | [], _ => by
    rw [exprs]
    exact .pure trivial
  | e :: es, h => by
    rw [exprs]
    refine (settles_expr e (h e (List.mem_cons_self ..))).bind fun c _ => ?_
    refine (settles_exprs es fun other hother => h other (List.mem_cons_of_mem _ hother)).bind
      fun cs _ => .pure trivial

theorem settles_inits (l : Layout) : ∀ entries : List Entry,
    (∀ part ∈ entries.flatMap Entry.parts, Settled scope.returnsOf (scope.types, k) part) →
      Settles k (inits scope l entries) fun _ => True
  | [], _ => by
    rw [inits]
    exact .pure trivial
  | .named name value :: rest, h => by
    rw [List.flatMap_cons, List.forall_mem_append] at h
    rw [inits]
    refine (settles_expr value (h.1 value (List.mem_singleton.mpr rfl))).bind fun v _ => ?_
    exact (settles_inits l rest h.2).bind fun is _ => .pure trivial
  | .keyed key value :: rest, h => by
    rw [List.flatMap_cons, List.forall_mem_append] at h
    have hvalue := h.1 value (List.mem_pair.mpr (.inr rfl))
    rw [inits]
    cases key.constantKey? with
    | some name =>
      refine (settles_expr value hvalue).bind fun v _ => ?_
      exact (settles_inits l rest h.2).bind fun is _ => .pure trivial
    | none =>
      refine (settles_expr key (h.1 key (List.mem_pair.mpr (.inl rfl)))).bind fun c _ => ?_
      refine (settles_expr value hvalue).bind fun v _ => ?_
      exact (settles_inits l rest h.2).bind fun is _ => .pure trivial
  | .positional value :: rest, h => by
    rw [List.flatMap_cons, List.forall_mem_append] at h
    rw [inits]
    refine (settles_expr value (h.1 value (List.mem_singleton.mpr rfl))).bind fun v _ => ?_
    exact (settles_inits l rest h.2).bind fun is _ => .pure trivial

end

/-! ## Statements -/

/-- The operands of a statement are settled.  The statements in its blocks are not looked at. -/
def OperandsSettled (k : Knowledge) (st : Stmt) : Prop :=
  ∀ operand ∈ st.operands, Settled scope.returnsOf (scope.types, k) operand

theorem settles_step (step : Option Expr)
    (h : ∀ e ∈ step.toList, Settled scope.returnsOf (scope.types, k) e) :
    Settles k (Emit.step scope step) fun _ => True := by
  cases step with
  | none => exact .pure trivial
  | some e =>
    exact (settles_expr scope e (h e (List.mem_cons_self ..))).mono fun _ _ => trivial

/-- The call of a statement: callee and arguments are emitted, then a site is made. -/
theorem settles_callParts {callee : Expr} {args : List Expr}
    (h : Settled scope.returnsOf (scope.types, k) (.call callee args)) (truncate : Bool)
    {f : Emitted → CallCode → Emit Step}
    (hf : ∀ c code, c.type = reading scope.returnsOf (scope.types, k) callee →
      Settles k (f c code) fun _ => True) :
    Settles k (do
      let c ← expr scope callee
      let as ← exprs scope args
      let code ← call c as truncate
      f c code) fun _ => True := by
  refine (settles_expr scope callee (h.part (List.mem_cons_self ..))).bind fun c hc => ?_
  refine (settles_exprs scope args fun arg harg => h.part (List.mem_cons_of_mem _ harg)).bind
    fun cs _ => ?_
  exact (settles_call c cs truncate).bind fun code _ => hf c code hc.1

theorem settles_ret (values : List Expr)
    (h : ∀ e ∈ values, Settled scope.returnsOf (scope.types, k) e) :
    Settles k (ret scope values) fun _ => True := by
  unfold ret
  split
  next callee args =>
    have hcall := h _ (List.mem_cons_self ..)
    refine settles_callParts scope hcall false fun c code htype => ?_
    rw [htype]
    exact (settles_learn (Inference.settles_callTypes (hcall .self))).bind fun _ _ => .pure trivial
  next => exact (settles_exprs scope values h).bind fun vs _ => .pure trivial

theorem settles_discard (e : Expr) (h : Settled scope.returnsOf (scope.types, k) e) :
    Settles k (discard scope e) fun _ => True := by
  unfold discard
  split
  next callee args => exact settles_callParts scope h true fun c code _ => .pure trivial
  next => exact (settles_expr scope e h).bind fun c _ => .pure trivial

mutual

/-- Emission of a statement finds nothing new. -/
theorem settles_stmt : ∀ (inLoop : Bool) (st : Stmt), st.Every (OperandsSettled scope k) →
    Settles k (stmt scope inLoop st) fun _ => True
  | inLoop, .declare slot none, _ => by
    rw [stmt]
    refine (settles_announce scope _).bind fun _ _ => ?_
    exact (settles_checkSlot scope slot).bind fun _ _ => .pure trivial
  | inLoop, .declare slot (some e), h => by
    rw [stmt]
    refine (settles_announce scope _).bind fun _ _ => ?_
    refine (settles_checkSlot scope slot).bind fun _ _ => ?_
    exact (settles_expr scope e (h e (List.mem_cons_self ..))).bind fun c _ => .pure trivial
  | inLoop, .assign slot value, h => by
    rw [stmt]
    refine (settles_announce scope _).bind fun _ _ => ?_
    refine (settles_checkSlot scope slot).bind fun _ _ => ?_
    exact (settles_expr scope value (h value (List.mem_cons_self ..))).bind fun c _ => .pure trivial
  | inLoop, .setUpvalue index value, h => by
    rw [stmt]
    refine (settles_announce scope _).bind fun _ _ => ?_
    refine (settles_checkUpvalue scope index).bind fun _ _ => ?_
    exact (settles_expr scope value (h value (List.mem_cons_self ..))).bind fun c _ => .pure trivial
  | inLoop, .setGlobal name value, h => by
    rw [stmt]
    refine (settles_announce scope _).bind fun _ _ => ?_
    exact (settles_expr scope value (h value (List.mem_cons_self ..))).bind fun c _ => .pure trivial
  | inLoop, .setIndex target key value, h => by
    have hvalue := settles_expr scope value (h value (by simp [Stmt.operands]))
    rw [stmt]
    refine (settles_announce scope _).bind fun _ _ => ?_
    refine (settles_expr scope target (h target (by simp [Stmt.operands]))).bind fun t _ => ?_
    refine (settles_field? t.type key).bind fun field _ => ?_
    cases field with
    | some f => exact hvalue.bind fun v _ => .pure trivial
    | none =>
      refine (settles_expr scope key (h key (by simp [Stmt.operands]))).bind fun c _ => ?_
      exact hvalue.bind fun v _ => .pure trivial
  | inLoop, .expr e, h => by
    rw [stmt]
    refine (settles_announce scope _).bind fun _ _ => ?_
    exact settles_discard scope e (h e (List.mem_cons_self ..))
  | inLoop, .branch cond thenBlock elseBlock, h => by
    obtain ⟨hcond, hthen, helse⟩ := h
    rw [stmt]
    refine (settles_announce scope _).bind fun _ _ => ?_
    refine (settles_expr scope cond (hcond cond (List.mem_cons_self ..))).bind fun c _ => ?_
    refine (settles_block inLoop thenBlock hthen).bind fun t _ => ?_
    exact (settles_block inLoop elseBlock helse).bind fun e _ => .pure trivial
  | inLoop, .whileLoop cond body, h => by
    obtain ⟨hcond, hbody⟩ := h
    rw [stmt]
    refine (settles_announce scope _).bind fun _ _ => ?_
    refine (settles_expr scope cond (hcond cond (List.mem_cons_self ..))).bind fun c _ => ?_
    exact (settles_block true body hbody).bind fun b _ => .pure trivial
  | inLoop, .forLoop slot start limit step body, h => by
    obtain ⟨hrange, hbody⟩ := h
    rw [stmt]
    refine (settles_announce scope _).bind fun _ _ => ?_
    refine (settles_checkSlot scope slot).bind fun _ _ => ?_
    refine (settles_expr scope start (hrange start (by simp [Stmt.operands]))).bind fun a _ => ?_
    refine (settles_expr scope limit (hrange limit (by simp [Stmt.operands]))).bind fun l _ => ?_
    refine (settles_step scope step fun e he => hrange e (by simp [Stmt.operands, he])).bind
      fun d _ => ?_
    exact (settles_block true body hbody).bind fun b _ => .pure trivial
  | inLoop, .ret values, h => by
    rw [stmt]
    exact (settles_announce scope _).bind fun _ _ => settles_ret scope values h
  | inLoop, .breakLoop, _ => by
    rw [stmt]
    refine (settles_announce scope _).bind fun _ _ => ?_
    split
    · exact .pure trivial
    · exact .throw

/-- Emission of a block finds nothing new. -/
theorem settles_block : ∀ (inLoop : Bool) (block : List Stmt),
    Stmt.BlockEvery (OperandsSettled scope k) block →
      Settles k (Emit.block scope inLoop block) fun _ => True
  | inLoop, [], _ => by
    rw [Emit.block]
    exact .pure trivial
  | inLoop, st :: rest, h => by
    obtain ⟨hfirst, hrest⟩ := h
    rw [Emit.block]
    refine (settles_stmt inLoop st hfirst).bind fun c _ => ?_
    exact (settles_block inLoop rest hrest).bind fun cs _ => .pure trivial

end
end Emit
end AdaptiveScript
