import AdaptiveScript.Proofs.Run.Operators
import AdaptiveScript.Proofs.Triple

/-!
# Operators on typed operands

Which kernel applies an operator is decided by the types of the operands.  This module says when
that is right.  Whatever the representation of an operand, it is enough that its type admits the
values that it gives (`Emitted.TypedAt`).  Then the conversions to unboxed numbers cannot fail, the
chosen kernel does what the operator does to boxed values, and the type of the result is right
again.

An operand may change the machine, so its type is asked for at the moment when its value is there.
The type of an operator's result does not depend on these moments.

## Main statements

* `eval_toInt`, `eval_toFloat`: unboxed operands are boxed ones, followed by a conversion.
* `run_unboxed`: conversions that the types admit leave the operator on boxed values.
* `operators_of_typedAt`: code of operators on operands of right types.
-/

namespace AdaptiveScript

/-- Two computations that start alike agree if they go on alike. -/
theorem run_bind_congr {σ ε α β : Type} {x : ExceptT ε (StateM σ) α}
    {f g : α → ExceptT ε (StateM σ) β} {s : σ}
    (h : ∀ a s', x.run.run s = (.ok a, s') → (f a).run.run s' = (g a).run.run s') :
    (x >>= f).run.run s = (x >>= g).run.run s := by
  rw [run_bind, run_bind]
  split
  · next a s' hx => exact h a s' hx
  · rfl

theorem eq_of_run_ofExcept {α : Type} {x : Except RuntimeError α} {a : α} {m m' : Machine}
    (h : (Run.ofExcept x).run.run m = (.ok a, m')) : x = .ok a ∧ m = m' := by
  cases x with
  | error e => cases h
  | ok b =>
    cases h
    exact ⟨rfl, rfl⟩

namespace Emitted

variable (caller : Caller) (frame : Frame)

/-- The type of the code admits its value, as soon as there is one. -/
def TypedAt (e : Emitted) (m : Machine) : Prop :=
  ∀ v m', (e.run caller frame).run.run m = (.ok v, m') →
    e.type.admits m'.shapes m'.heap v = true

/-- A binary operator on boxed values: the left operand, the right one, then the operator. -/
def applyBinary (op : BinOp) (l r : Emitted) : Run Value := do
  let a ← l.run caller frame
  let b ← r.run caller frame
  Run.ofExcept (AdaptiveScript.binary op a b)

/-- A unary operator on a boxed value. -/
def applyUnary (op : UnOp) (e : Emitted) : Run Value := do
  let a ← e.run caller frame
  Run.ofExcept (AdaptiveScript.unary (← Run.heap).border op a)

variable {caller : Caller} {frame : Frame} {m : Machine}

/-! ## Unboxed operands -/

theorem eval_toInt (e : Emitted) : eval caller frame e.toInt =
    (do Run.ofExcept (Rep.int.unbox (← e.run caller frame))) := by
  obtain ⟨t, r, c⟩ := e
  cases r with
  | int => simp [toInt, Rep.unbox]
  | _ => simp only [toInt, eval, eval_boxed]

theorem eval_toFloat (e : Emitted) : eval caller frame e.toFloat =
    (do Run.ofExcept (Rep.value.widen (← e.run caller frame))) := by
  obtain ⟨t, r, c⟩ := e
  cases r <;> simp [toFloat, eval, Rep.widen, Value.asFloat?, Value.kind]

/-- A conversion succeeds on the values that a type admits, and `P` relates each of them to what it
is converted to. -/
def Converts {α : Type} (type : Ty) (f : Value → Except RuntimeError α) (P : Value → α → Prop) :
    Prop :=
  ∀ ⦃shapes heap a⦄, type.admits shapes heap a = true → ∃ x, f a = .ok x ∧ P a x

theorem converts_integer {type : Ty} (h : type = .integer) :
    Converts type Rep.int.unbox fun a n => a = .int n := by
  intro shapes heap a ha
  rw [h] at ha
  obtain ⟨n, rfl⟩ := Ty.admits_integer.mp ha
  exact ⟨n, rfl, rfl⟩

theorem converts_float {type : Ty} (h : type = .float) :
    Converts type Rep.value.widen fun a x => a = .float x := by
  intro shapes heap a ha
  rw [h] at ha
  obtain ⟨x, rfl⟩ := Ty.admits_float.mp ha
  exact ⟨x, rfl, rfl⟩

/-- Numbers widen to floats, and only those of type integer are integers. -/
theorem converts_numeric {type : Ty} (h : type.isNumeric = true) :
    Converts type Rep.value.widen fun a x =>
      a.asFloat? = some x ∧ (a.asInt?.isSome = true → type = .integer) := by
  intro shapes heap a ha
  rcases Ty.eq_of_isNumeric h with rfl | rfl
  · obtain ⟨n, rfl⟩ := Ty.admits_integer.mp ha
    exact ⟨Binary64.ofInt64 n, rfl, rfl, fun _ => rfl⟩
  · obtain ⟨x, rfl⟩ := Ty.admits_float.mp ha
    exact ⟨x, rfl, rfl, nofun⟩

/-- Converting the operands of an operator and applying a kernel is the operator, if the types of
the operands admit the conversions and the kernel is right for what they admit. -/
theorem run_unboxed {α β : Type} {op : BinOp} {l r : Emitted} {f : Value → Except RuntimeError α}
    {g : Value → Except RuntimeError β} {P : Value → α → Prop} {Q : Value → β → Prop}
    {kernel : α → β → Except RuntimeError Value} (hl : l.TypedAt caller frame m)
    (hr : ∀ a m₁, (l.run caller frame).run.run m = (.ok a, m₁) → r.TypedAt caller frame m₁)
    (hf : Converts l.type f P) (hg : Converts r.type g Q)
    (hkernel : ∀ ⦃a b x y⦄, P a x → Q b y → AdaptiveScript.binary op a b = kernel x y) :
    (do
      let x ← Run.ofExcept (f (← l.run caller frame))
      let y ← Run.ofExcept (g (← r.run caller frame))
      Run.ofExcept (kernel x y)).run.run m = (applyBinary caller frame op l r).run.run m := by
  refine run_bind_congr fun a m₁ ha => ?_
  obtain ⟨x, hx, hax⟩ := hf (hl a m₁ ha)
  rw [hx, Run.ofExcept_ok, pure_bind]
  refine run_bind_congr fun b m₂ hb => ?_
  obtain ⟨y, hy, hby⟩ := hg (hr a m₁ ha b m₂ hb)
  rw [hy, Run.ofExcept_ok, pure_bind, hkernel hax hby]

/-! ## The code of operators -/

/-- Code of a binary operator applies the operator to boxed values. -/
theorem run_binary_of_typedAt (op : BinOp) {l r : Emitted} (hl : l.TypedAt caller frame m)
    (hr : ∀ a m₁, (l.run caller frame).run.run m = (.ok a, m₁) → r.TypedAt caller frame m₁) :
    ((Emitted.binary op l r).run caller frame).run.run m =
      (applyBinary caller frame op l r).run.run m := by
  unfold Emitted.binary
  dsimp only
  split
  · next h =>
    obtain ⟨hop, htl, htr⟩ := h
    rw [← run_unboxed hl hr (converts_integer htl) (converts_integer htr)
      (by rintro _ _ x y rfl rfl; exact binary_intArith hop x y)]
    simp [eval, eval_toInt]
  · next hint =>
    split
    · next h =>
      simp only [Bool.and_eq_true] at h
      obtain ⟨hop, hnl, hnr⟩ := h
      rw [← run_unboxed hl hr (converts_numeric hnl) (converts_numeric hnr)
        (by
          rintro a b x y ⟨hx, hintl⟩ ⟨hy, hintr⟩
          exact binary_floatArith hop hx hy fun h => hint ⟨h.1, hintl h.2.1, hintr h.2.2⟩)]
      simp only [run_float, eval, eval_toFloat, bind_assoc, pure_bind, Run.ofExcept_ok]
    · next harith =>
      split
      · next h =>
        obtain ⟨hop, htl, htr⟩ := h
        rw [← run_unboxed hl hr (converts_integer htl) (converts_integer htr)
          (by rintro _ _ x y rfl rfl; exact binary_int_int hop x y)]
        simp only [run_bool, eval, eval_toInt, bind_assoc, pure_bind, Run.ofExcept_ok]
      · next hints =>
        split
        · next h =>
          simp only [Bool.and_eq_true] at h
          obtain ⟨hop, hnl, hnr⟩ := h
          -- at least one of the two numbers is a float
          split
          · next htl =>
            have htr : r.type = .float := (Ty.eq_of_isNumeric hnr).resolve_left
              fun htr => hints ⟨hop, htl, htr⟩
            rw [← run_unboxed hl hr (converts_integer htl) (converts_float htr)
              (by rintro _ _ x y rfl rfl; exact binary_int_float hop x y)]
            simp only [run_bool, eval, eval_toInt, eval_toFloat, bind_assoc, pure_bind, Run.ofExcept_ok]
          · next hnotl =>
            have htl : l.type = .float := (Ty.eq_of_isNumeric hnl).resolve_left hnotl
            split
            · next htr =>
              rw [← run_unboxed hl hr (converts_float htl) (converts_integer htr)
                (by rintro _ _ x y rfl rfl; exact binary_float_int hop x y)]
              simp only [run_bool, eval, eval_toInt, eval_toFloat, bind_assoc, pure_bind, Run.ofExcept_ok]
            · next hnotr =>
              have htr : r.type = .float := (Ty.eq_of_isNumeric hnr).resolve_left hnotr
              rw [← run_unboxed hl hr (converts_float htl) (converts_float htr)
                (by rintro _ _ x y rfl rfl; exact binary_float_float hop x y)]
              simp only [run_bool, eval, eval_toFloat, bind_assoc, pure_bind, Run.ofExcept_ok]
        · rw [run_boxedBinary op l r fun hop hnumeric => harith (by
            simp only [hop, hnumeric.1, hnumeric.2, Bool.and_self])]
          rfl

/-- Code of a unary operator applies the operator to the boxed value. -/
theorem run_unary_of_typedAt (op : UnOp) {e : Emitted} (he : e.TypedAt caller frame m) :
    ((Emitted.unary op e).run caller frame).run.run m =
      (applyUnary caller frame op e).run.run m := by
  -- the result of the operator has the type that it is checked for
  have hnarrow : ((narrow (Ty.unaryType op e.type) (.unary op e.boxed)).run caller frame).run.run m =
      (applyUnary caller frame op e).run.run m := by
    rw [run_narrow, eval, eval_boxed, bind_assoc]
    refine run_bind_congr fun a m₁ ha => ?_
    rw [bind_assoc]
    refine run_bind_congr fun heap m₂ _ => ?_
    rw [Run.ofExcept_bind]
    cases hunary : AdaptiveScript.unary heap.border op a with
    | error stop => rfl
    | ok v =>
      have hpass := Ty.narrowed_eq_ok (Ty.admits_unary (he a m₁ ha) hunary)
      exact congrArg (fun x => (Run.ofExcept x).run.run m₂) hpass
  cases op with
  | not =>
    have hnot : (Emitted.unary .not e).run caller frame = applyUnary caller frame .not e := by
      simp [Emitted.unary, eval, applyUnary, AdaptiveScript.unary, Run.map_heap_const]
    rw [hnot]
  | len => exact hnarrow
  | neg =>
    obtain ⟨t, r, c⟩ := e
    cases r with
    | int => simp [Emitted.unary, eval, applyUnary, AdaptiveScript.unary, Run.map_heap_const]
    | float => simp [Emitted.unary, eval, applyUnary, AdaptiveScript.unary, Run.map_heap_const]
    | bool => exact hnarrow
    | value => exact hnarrow

/-- The type of a binary operator admits what the operator gives. -/
theorem typedAt_binary (op : BinOp) {l r : Emitted} (hl : l.TypedAt caller frame m)
    (hr : ∀ a m₁, (l.run caller frame).run.run m = (.ok a, m₁) → r.TypedAt caller frame m₁) :
    (Emitted.binary op l r).TypedAt caller frame m := by
  intro v m' hrun
  rw [run_binary_of_typedAt op hl hr] at hrun
  obtain ⟨a, m₁, ha, hrest⟩ := exists_of_run_bind hrun
  obtain ⟨b, m₂, hb, hop⟩ := exists_of_run_bind hrest
  obtain ⟨hv, rfl⟩ := eq_of_run_ofExcept hop
  rw [type_binary]
  exact Ty.admits_binary (hl a m₁ ha) (hr a m₁ ha b m₂ hb) hv

theorem typedAt_unary (op : UnOp) {e : Emitted} (he : e.TypedAt caller frame m) :
    (Emitted.unary op e).TypedAt caller frame m := by
  intro v m' hrun
  rw [run_unary_of_typedAt op he] at hrun
  obtain ⟨a, m₁, ha, hrest⟩ := exists_of_run_bind hrun
  obtain ⟨hv, rfl⟩ := eq_of_run_ofExcept (x := AdaptiveScript.unary m₁.heap.border op a) hrest
  rw [type_unary]
  exact Ty.admits_unary (he a m₁ ha) hv

end Emitted

open Emitted

/-- **Operators on typed operands.**  If the types of the operands admit the values that they give,
code of an operator does what the operator does to the boxed values: the operands run once, the left
one first, an operand that fails decides, and then there is the value or the error of the operator.
And the type of the operator admits every value that there is. -/
theorem operators_of_typedAt (caller : Caller) (frame : Frame) (m : Machine) :
    (∀ (op : BinOp) (l r : Emitted), l.TypedAt caller frame m →
      (∀ a m₁, (l.run caller frame).run.run m = (.ok a, m₁) → r.TypedAt caller frame m₁) →
      ((Emitted.binary op l r).run caller frame).run.run m =
        (do
          let a ← l.run caller frame
          let b ← r.run caller frame
          Run.ofExcept (binary op a b)).run.run m ∧
      ∀ v m', ((Emitted.binary op l r).run caller frame).run.run m = (.ok v, m') →
        (Ty.binaryType op l.type r.type).admits m'.shapes m'.heap v = true) ∧
    (∀ (op : UnOp) (e : Emitted), e.TypedAt caller frame m →
      ((Emitted.unary op e).run caller frame).run.run m =
        (do
          let a ← e.run caller frame
          Run.ofExcept (unary (← Run.heap).border op a)).run.run m ∧
      ∀ v m', ((Emitted.unary op e).run caller frame).run.run m = (.ok v, m') →
        (Ty.unaryType op e.type).admits m'.shapes m'.heap v = true) := by
  constructor
  · intro op l r hl hr
    refine ⟨run_binary_of_typedAt op hl hr, ?_⟩
    rw [← type_binary]
    exact typedAt_binary op hl hr
  · intro op e he
    refine ⟨run_unary_of_typedAt op he, ?_⟩
    rw [← type_unary]
    exact typedAt_unary op he

/-- A constant of a routine is boxed, and still an integer constant goes through the integer kernel,
which fails on a division by zero as the operator does.  Its negation is checked to be an integer. -/
theorem operators_of_typedAt_constant :
    let caller : Caller := fun _ _ _ _ => pure []
    let frame : Frame := ⟨0, #[], [], #[.int 7], []⟩
    let seven : Emitted := ⟨.integer, .value, .constant 0⟩
    let zero : Emitted := ⟨.integer, .int, .int 0⟩
    seven.TypedAt caller frame .empty ∧ zero.TypedAt caller frame .empty ∧
      ((Emitted.binary .floorDiv seven zero).run caller frame).run.run .empty =
        (.error (.error (.zeroDivision .floorDivision)), .empty) ∧
      ((Emitted.unary .neg seven).run caller frame).run.run .empty = (.ok (.int (-7)), .empty) := by
  intro caller frame seven zero
  have hseven : seven.TypedAt caller frame .empty := by
    intro v m' hrun
    cases hrun
    rfl
  have hzero (m : Machine) : zero.TypedAt caller frame m := by
    intro v m' hrun
    cases hrun
    rfl
  obtain ⟨hbinary, hunary⟩ := operators_of_typedAt caller frame .empty
  exact ⟨hseven, hzero .empty,
    (hbinary .floorDiv seven zero hseven fun _ m₁ _ => hzero m₁).1.trans rfl,
    (hunary .neg seven hseven).1.trans rfl⟩

end AdaptiveScript
