import AdaptiveScript.Proofs.Code.Boxed
import AdaptiveScript.Proofs.Linking.Check

/-!
# Operators and types

The type rules of operators are sound: the result of an operator on values of some types has
the type that the rule gives (`Ty.admits_binary`, `Ty.admits_unary`, `Ty.admits_loop`).  So
the check that is made when a result is unboxed passes (`Ty.narrowed_eq_ok`).  The errors of
operators are never the one that this check would raise.
-/

namespace AdaptiveScript

theorem exists_of_map_eq_ok {ε α β : Type} {x : Except ε α} {f : α → β} {b : β}
    (h : x.map f = .ok b) : ∃ a, x = .ok a ∧ f a = b := by
  cases x with
  | error e => cases h
  | ok a =>
    cases h
    exact ⟨a, rfl, rfl⟩

theorem error_of_map_eq_error {ε α β : Type} {x : Except ε α} {f : α → β} {e : ε}
    (h : x.map f = .error e) : x = .error e := by
  cases x with
  | error e' =>
    cases h
    rfl
  | ok a => cases h

theorem exists_of_mapM_eq_error {ε α β : Type} {f : α → Except ε β} {e : ε} :
    ∀ {xs : List α}, xs.mapM f = .error e → ∃ x ∈ xs, f x = .error e
  | [], h => by cases h
  | x :: xs, h => by
    rw [List.mapM_cons] at h
    cases hx : f x with
    | error e' =>
      rw [hx] at h
      cases h
      exact ⟨x, List.mem_cons_self .., hx⟩
    | ok y =>
      rw [hx] at h
      cases hxs : xs.mapM f with
      | ok ys =>
        rw [hxs] at h
        cases h
      | error e' =>
        rw [hxs] at h
        cases h
        obtain ⟨other, hother, heq⟩ := exists_of_mapM_eq_error hxs
        exact ⟨other, List.mem_cons_of_mem x hother, heq⟩

theorem map_eq_of_mapM_eq_ok {ε α β : Type} {f : α → Except ε β} :
    ∀ {xs : List α} {ys : List β}, xs.mapM f = .ok ys → xs.map f = ys.map .ok
  | [], _, h => by
    cases h
    rfl
  | x :: xs, ys, h => by
    rw [List.mapM_cons] at h
    cases hx : f x with
    | error e =>
      rw [hx] at h
      cases h
    | ok y =>
      cases hxs : xs.mapM f with
      | error e =>
        rw [hx, hxs] at h
        cases h
      | ok rest =>
        rw [hx, hxs] at h
        cases h
        rw [List.map_cons, List.map_cons, hx, map_eq_of_mapM_eq_ok hxs]

/-! ## Values of simple types -/

namespace Ty

variable {shapes : Shapes} {heap : Heap} {v : Value}

theorem admits_nil : Ty.nil.admits shapes heap v = true ↔ v = .nil := by
  cases v <;> simp [admits, check, Value.expectNil]

theorem admits_integer : Ty.integer.admits shapes heap v = true ↔ ∃ n, v = .int n := by
  cases v <;> simp [admits, check, Value.expectInt, Except.map]

theorem admits_float : Ty.float.admits shapes heap v = true ↔ ∃ x, v = .float x := by
  cases v <;> simp [admits, check, Value.expectFloat, Except.map]

theorem admits_boolean : Ty.boolean.admits shapes heap v = true ↔ ∃ b, v = .bool b := by
  cases v <;> simp [admits, check, Value.expectBool, Except.map]

/-- Unboxing and boxing again does not change a value. -/
theorem eq_of_narrowed {type : Ty} {u : Value} (h : type.narrowed v = .ok u) : u = v := by
  have hbox (r : Rep) (a : r.Carrier) (hunbox : r.unbox v = .ok a) : r.box a = v := by
    cases r <;> cases v <;> cases hunbox <;> rfl
  obtain ⟨a, hunbox, rfl⟩ := exists_of_map_eq_ok h
  exact hbox _ a hunbox

/-- A value of a type can be unboxed. -/
theorem narrowed_eq_ok {type : Ty} (h : type.admits shapes heap v = true) :
    type.narrowed v = .ok v := by
  cases type with
  | integer =>
    obtain ⟨n, rfl⟩ := admits_integer.1 h
    rfl
  | float =>
    obtain ⟨x, rfl⟩ := admits_float.1 h
    rfl
  | boolean =>
    obtain ⟨b, rfl⟩ := admits_boolean.1 h
    rfl
  | _ => rfl

theorem admits_literal (l : Literal) : l.type.admits shapes heap l.value = true := by
  cases l <;> rfl

theorem admits_join_left {l r : Ty} (h : l.admits shapes heap v = true) :
    (l.join r).admits shapes heap v = true := by
  unfold join
  split
  · exact h
  · rfl

theorem admits_join_right {l r : Ty} (h : r.admits shapes heap v = true) :
    (l.join r).admits shapes heap v = true := by
  unfold join
  split
  · next heq =>
    rw [heq]
    exact h
  · rfl

end Ty

/-! ## Results of operators -/

/-- Results of arithmetic on floats are floats. -/
theorem float_of_floatOperands {op : BinOp} {a b v : Value}
    (h : ((floatOperands a b).map fun (x, y) => Value.float (floatArith op x y)) = .ok v) :
    ∃ x, v = .float x := by
  cases hoperands : floatOperands a b with
  | error e =>
    rw [hoperands] at h
    cases h
  | ok xy =>
    rw [hoperands] at h
    cases h
    exact ⟨_, rfl⟩

/-- Arithmetic goes through floats unless both operands are integers. -/
theorem binary_of_not_ints {op : BinOp} (hop : op.hasIntKernel = true) {a b : Value}
    (hints : ¬ ∃ x y, a = .int x ∧ b = .int y) :
    binary op a b = (floatOperands a b).map fun (x, y) => Value.float (floatArith op x y) := by
  cases op <;> cases hop <;> cases a <;> cases b <;>
    first | rfl | exact absurd ⟨_, _, rfl, rfl⟩ hints

/-- The kernel of an arithmetic operator gives an integer for two integers, and a float as
soon as one of two numbers is a float. -/
theorem binary_kernel_cases {op : BinOp} (hop : op.hasIntKernel = true) {a b v : Value}
    (h : binary op a b = .ok v) :
    (∃ x y n, a = .int x ∧ b = .int y ∧ v = .int n) ∨
      ¬ (∃ x y, a = .int x ∧ b = .int y) ∧ ∃ x, v = .float x := by
  by_cases hints : ∃ x y, a = .int x ∧ b = .int y
  · obtain ⟨x, y, rfl, rfl⟩ := hints
    rw [binary_intArith hop] at h
    cases hkernel : intArith op x y with
    | error e =>
      rw [hkernel] at h
      cases h
    | ok n =>
      rw [hkernel] at h
      cases h
      exact .inl ⟨x, y, n, rfl, rfl, rfl⟩
  · rw [binary_of_not_ints hop hints] at h
    exact .inr ⟨hints, float_of_floatOperands h⟩

namespace Ty

variable {shapes : Shapes} {heap : Heap}

/-- The type of a binary operator's result, whenever each operand had its type. -/
theorem admits_binary {shapes₁ shapes₂ : Shapes} {heap₁ heap₂ : Heap} {op : BinOp} {l r : Ty}
    {a b v : Value} (ha : l.admits shapes₁ heap₁ a = true) (hb : r.admits shapes₂ heap₂ b = true)
    (h : binary op a b = .ok v) : (binaryType op l r).admits shapes heap v = true := by
  have hkernel (hop : op.hasIntKernel = true) : (if l = .integer ∧ r = .integer then Ty.integer
      else if l.isNumeric && r.isNumeric then .float else .unknown).admits shapes heap v = true := by
    rcases binary_kernel_cases hop h with ⟨x, y, n, rfl, rfl, rfl⟩ | ⟨hints, x, rfl⟩
    · -- the types of two integers are not float
      split
      · rfl
      · next hnot =>
        split
        · next hnumeric =>
          simp only [Bool.and_eq_true] at hnumeric
          exfalso
          rcases eq_of_isNumeric hnumeric.1 with rfl | rfl
          · rcases eq_of_isNumeric hnumeric.2 with rfl | rfl
            · exact hnot ⟨rfl, rfl⟩
            · cases hb
          · cases ha
        · rfl
    · split
      · next hboth =>
        obtain ⟨rfl, rfl⟩ := hboth
        obtain ⟨n, rfl⟩ := admits_integer.1 ha
        obtain ⟨k, rfl⟩ := admits_integer.1 hb
        exact absurd ⟨n, k, rfl, rfl⟩ hints
      · split <;> rfl
  cases op with
  | add => exact hkernel rfl
  | sub => exact hkernel rfl
  | mul => exact hkernel rfl
  | mod => exact hkernel rfl
  | floorDiv => exact hkernel rfl
  | div => exact admits_float.2 (float_of_floatOperands h)
  | pow => exact admits_float.2 (float_of_floatOperands h)
  | concat =>
    obtain ⟨s, -, rfl⟩ := exists_of_map_eq_ok h
    rfl
  | eq =>
    cases h
    rfl
  | ne =>
    cases h
    rfl
  | _ =>
    obtain ⟨s, -, rfl⟩ := exists_of_map_eq_ok h
    rfl

/-- The type of a unary operator's result. -/
theorem admits_unary {border : TableId → Int64} {op : UnOp} {type : Ty} {a v : Value}
    (ha : type.admits shapes heap a = true) (h : unary border op a = .ok v) :
    (unaryType op type).admits shapes heap v = true := by
  cases op with
  | not =>
    cases h
    rfl
  | neg =>
    show (if type.isNumeric then type else .unknown).admits shapes heap v = true
    split
    · next hnumeric =>
      rcases eq_of_isNumeric hnumeric with rfl | rfl
      · obtain ⟨n, rfl⟩ := admits_integer.1 ha
        cases h
        rfl
      · obtain ⟨x, rfl⟩ := admits_float.1 ha
        cases h
        rfl
    · rfl
  | len =>
    cases a <;> cases h <;> rfl

/-- The type of the control variable of a loop. -/
theorem admits_loop {s l d : Ty} {a b c : Value} {range : Range}
    (ha : s.admits shapes heap a = true) (hc : d.admits shapes heap c = true)
    (h : Range.ofValues a b c = .ok range) :
    match range with
    | .int _ _ _ => ∀ n, (loopType s l d).admits shapes heap (.int n) = true
    | .float _ _ _ => ∀ x, (loopType s l d).admits shapes heap (.float x) = true := by
  have hints : (∃ n k, a = .int n ∧ c = .int k) ∧ (∃ n x k, range = .int n x k) ∨
      ¬ (∃ n k, a = .int n ∧ c = .int k) ∧ (∃ x y z, range = .float x y z) := by
    unfold Range.ofValues at h
    split at h
    · cases h
    · cases h
    · cases h
    · split at h
      · cases h
        exact .inl ⟨⟨_, _, rfl, rfl⟩, _, _, _, rfl⟩
      · next hnot =>
        cases h
        refine .inr ⟨?_, _, _, _, rfl⟩
        rintro ⟨n, k, rfl, rfl⟩
        exact hnot n k rfl rfl
  rcases hints with ⟨⟨n, k, rfl, rfl⟩, _, _, _, rfl⟩ | ⟨hnot, _, _, _, rfl⟩
  · intro i
    unfold loopType
    split
    · rfl
    · next hint =>
      split
      · next hnumeric =>
        simp only [Bool.and_eq_true] at hnumeric
        obtain ⟨⟨hs, hl⟩, hd⟩ := hnumeric
        exfalso
        rcases eq_of_isNumeric hs with rfl | rfl
        · rcases eq_of_isNumeric hd with rfl | rfl
          · exact hint ⟨rfl, rfl, hl⟩
          · cases hc
        · cases ha
      · rfl
  · intro x
    unfold loopType
    split
    · next hint =>
      obtain ⟨rfl, rfl, -⟩ := hint
      obtain ⟨n, rfl⟩ := admits_integer.1 ha
      obtain ⟨k, rfl⟩ := admits_integer.1 hc
      exact absurd ⟨n, k, rfl, rfl⟩ hnot
    · split <;> rfl

end Ty

/-! ## Errors of operators -/

theorem isCodeFault_intArith {op : BinOp} {a b : Int64} {e : RuntimeError}
    (h : intArith op a b = .error e) : e.isCodeFault = false := by
  unfold intArith at h
  cases op with
  | add => cases h
  | sub => cases h
  | mul => cases h
  | mod =>
    dsimp only at h
    split at h
    · cases h
      rfl
    · split at h <;> cases h
  | floorDiv =>
    dsimp only at h
    split at h
    · cases h
      rfl
    · split at h <;> cases h
  | _ =>
    cases h
    rfl

theorem isCodeFault_floatOperands {a b : Value} {e : RuntimeError}
    (h : floatOperands a b = .error e) : e.isCodeFault = false := by
  unfold floatOperands at h
  split at h <;> cases h <;> rfl

theorem isCodeFault_compareValues {op : BinOp} {a b : Value} {e : RuntimeError}
    (h : compareValues op a b = .error e) : e.isCodeFault = false := by
  unfold compareValues at h
  cases horder : orderOf a b with
  | error e' =>
    rw [horder] at h
    cases h
    unfold orderOf at horder
    split at horder <;> cases horder
    rfl
  | ok o =>
    rw [horder] at h
    cases o with
    | none => cases h
    | some o => cases op <;> cases h

theorem isCodeFault_concatenate {a b : Value} {e : RuntimeError}
    (h : concatenate a b = .error e) : e.isCodeFault = false := by
  unfold concatenate at h
  split at h
  · cases h
    rfl
  · split at h <;> cases h
    rfl

theorem isCodeFault_binary {op : BinOp} {a b : Value} {e : RuntimeError}
    (h : binary op a b = .error e) : e.isCodeFault = false := by
  have hkernel (hop : op.hasIntKernel = true) : e.isCodeFault = false := by
    by_cases hints : ∃ x y, a = .int x ∧ b = .int y
    · obtain ⟨x, y, rfl, rfl⟩ := hints
      rw [binary_intArith hop] at h
      exact isCodeFault_intArith (error_of_map_eq_error h)
    · rw [binary_of_not_ints hop hints] at h
      exact isCodeFault_floatOperands (error_of_map_eq_error h)
  cases op with
  | add => exact hkernel rfl
  | sub => exact hkernel rfl
  | mul => exact hkernel rfl
  | mod => exact hkernel rfl
  | floorDiv => exact hkernel rfl
  | div => exact isCodeFault_floatOperands (error_of_map_eq_error h)
  | pow => exact isCodeFault_floatOperands (error_of_map_eq_error h)
  | concat => exact isCodeFault_concatenate (error_of_map_eq_error h)
  | eq => cases h
  | ne => cases h
  | _ => exact isCodeFault_compareValues (error_of_map_eq_error h)

theorem isCodeFault_unary {border : TableId → Int64} {op : UnOp} {a : Value} {e : RuntimeError}
    (h : unary border op a = .error e) : e.isCodeFault = false := by
  cases op <;> cases a <;> cases h <;> rfl

theorem isCodeFault_ofValues {a b c : Value} {e : RuntimeError}
    (h : Range.ofValues a b c = .error e) : e.isCodeFault = false := by
  unfold Range.ofValues at h
  split at h
  · cases h
    rfl
  · cases h
    rfl
  · cases h
    rfl
  · split at h <;> cases h

theorem isCodeFault_intLimit {limit : Value} {step : Int64} {e : RuntimeError}
    (h : intLimit limit step = .error e) : e.isCodeFault = false := by
  unfold intLimit at h
  split at h
  · cases h
  · split at h <;> cases h
  · cases h
    rfl

theorem isCodeFault_key {v : Value} {e : RuntimeError} (h : Key.ofValue v = .error e) :
    e.isCodeFault = false := by
  unfold Key.ofValue at h
  split at h
  · cases h
  · cases h
  · split at h
    · cases h
      rfl
    · split at h <;> cases h
  all_goals
    cases h
    try rfl

theorem isCodeFault_indexValue {heap : Heap} {target key : Value} {e : RuntimeError}
    (h : indexValue heap target key = .error e) : e.isCodeFault = false := by
  unfold indexValue at h
  split at h
  · split at h <;> cases h
  · cases h
    rfl

theorem isCodeFault_storeIndex {heap : Heap} {target key v : Value} {e : RuntimeError}
    (h : storeIndex heap target key v = .error e) : e.isCodeFault = false := by
  unfold storeIndex at h
  split at h
  · split at h
    · cases h
    · next hkey =>
      cases h
      exact isCodeFault_key hkey
  · cases h
    rfl

theorem isCodeFault_upvalue {frame : Frame} {index : Nat} {e : RuntimeError}
    (h : frame.upvalue index = .error e) : e.isCodeFault = false := by
  unfold Frame.upvalue at h
  split at h <;> cases h
  rfl

theorem isViolation_capture {frame : Frame} {capture : Capture} {e : RuntimeError}
    (h : frame.capture capture = .error e) : e.isViolation = false := by
  cases capture with
  | slot index =>
    unfold Frame.capture at h
    dsimp only at h
    split at h <;> cases h
    rfl
  | upvalue index => exact isViolation_of_isCodeFault (isCodeFault_upvalue h)

end AdaptiveScript
