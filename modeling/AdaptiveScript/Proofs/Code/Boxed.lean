import AdaptiveScript.Execution
import AdaptiveScript.Emission

/-!
# Specialized code on boxed values

Specialized code computes with unboxed numbers and booleans where it can.  This module
forgets the representation again: `Emitted.run` is the code followed by boxing its result,
and for every way to build code there is an equation that says what it does to boxed
values.  In these equations no trace of the types is left.  The operators are the dynamic
ones, `binary`, `unary` and `Range.ofValues`, whichever kernel the types selected.

The equations hold of code whose representation is the one of its type
(`Emitted.Fits`), which is how code is emitted.  The only check that remains is the one of
`Emitted.narrow`, which unboxes a value that was found to have some type: it is kept as
`Ty.narrowed`, and `narrowed_eq_ok` says that it passes if the value has the type.
-/

namespace AdaptiveScript

attribute [local simp] eval

/-! ## Computations of a running program -/

namespace Run

variable {α β : Type}

@[simp] theorem ofExcept_ok (a : α) : ofExcept (.ok a) = pure a := rfl

/-- Reading the heap without using it does nothing. -/
theorem map_heap_const (a : α) : (fun _ => a) <$> heap = (pure a : Run α) := rfl

@[simp] theorem map_ofExcept (x : Except RuntimeError α) (f : α → β) :
    f <$> ofExcept x = ofExcept (x.map f) := by
  cases x <;> rfl

theorem ofExcept_bind (x : Except RuntimeError α) (f : α → Except RuntimeError β) :
    (ofExcept x >>= fun a => ofExcept (f a)) = ofExcept (x >>= f) := by
  cases x <;> rfl

end Run

/-! ## Boxing -/

namespace Rep

theorem unbox_box (r : Rep) (a : r.Carrier) : r.unbox (r.box a) = .ok a := by
  cases r <;> rfl

end Rep

namespace Ty

/-- A value of a type, unboxed and boxed again.  A value without the representation of the
type is an error. -/
def narrowed (type : Ty) (v : Value) : Except RuntimeError Value :=
  (type.rep.unbox v).map type.rep.box

theorem narrowed_box (type : Ty) (a : type.rep.Carrier) :
    type.narrowed (type.rep.box a) = .ok (type.rep.box a) := by
  rw [narrowed, Rep.unbox_box]
  rfl

end Ty

namespace Emitted

/-- The code followed by boxing its result. -/
def run (caller : Caller) (frame : Frame) (e : Emitted) : Run Value := do
  return e.rep.box (← eval caller frame e.code)

/-- The representation is the one of the type. -/
def Fits (e : Emitted) : Prop :=
  e.rep = e.type.rep

variable {caller : Caller} {frame : Frame}

@[simp] theorem run_int (t : Ty) (c : Code .int) :
    run caller frame ⟨t, .int, c⟩ = (do return .int (← eval caller frame c)) := rfl

@[simp] theorem run_float (t : Ty) (c : Code .float) :
    run caller frame ⟨t, .float, c⟩ = (do return .float (← eval caller frame c)) := rfl

@[simp] theorem run_bool (t : Ty) (c : Code .bool) :
    run caller frame ⟨t, .bool, c⟩ = (do return .bool (← eval caller frame c)) := rfl

@[simp] theorem run_value (t : Ty) (c : Code .value) :
    run caller frame ⟨t, .value, c⟩ = eval caller frame c := by
  simp [run, Rep.box]

@[simp] theorem eval_boxed (e : Emitted) : eval caller frame e.boxed = e.run caller frame := by
  obtain ⟨t, r, c⟩ := e
  cases r with
  | value => rw [run_value, boxed]
  | _ => simp only [boxed, run, eval]

@[simp] theorem eval_toTruth (e : Emitted) : eval caller frame e.toTruth =
    (do return (← e.run caller frame).isTruthy) := by
  obtain ⟨t, r, c⟩ := e
  cases r <;> simp [toTruth, Rep.isTruthy, Value.isTruthy]

theorem run_narrow (type : Ty) (c : Code .value) :
    (narrow type c).run caller frame =
      (do Run.ofExcept (type.narrowed (← eval caller frame c))) := by
  unfold narrow Ty.narrowed
  cases type.rep with
  | value => simp [run, Rep.box, Rep.unbox, Except.map]
  | _ => simp; rfl

theorem fits_narrow (type : Ty) (c : Code .value) : (narrow type c).Fits := by
  unfold Fits narrow
  cases h : type.rep <;> simp [h]

theorem type_narrow (type : Ty) (c : Code .value) : (narrow type c).type = type := by
  unfold narrow
  split <;> rfl

/-! ### Code of known numbers -/

theorem run_of_integer {e : Emitted} (hfits : e.Fits) (htype : e.type = .integer) :
    e.run caller frame = (do return .int (← eval caller frame e.toInt)) := by
  obtain ⟨t, r, c⟩ := e
  cases htype
  cases hfits
  rfl

theorem run_of_float {e : Emitted} (hfits : e.Fits) (htype : e.type = .float) :
    e.run caller frame = (do return .float (← eval caller frame e.toFloat)) := by
  obtain ⟨t, r, c⟩ := e
  cases htype
  cases hfits
  rfl

/-- An integer that is needed as a float is widened. -/
theorem eval_toFloat_of_integer {e : Emitted} (hfits : e.Fits) (htype : e.type = .integer) :
    eval caller frame e.toFloat =
      (do return Binary64.ofInt64 (← eval caller frame e.toInt)) := by
  obtain ⟨t, r, c⟩ := e
  cases htype
  cases hfits
  simp [toFloat, toInt, Rep.widen]

end Emitted

/-! ## Comparisons of known numbers -/

theorem isEq_compare (a b : Int64) : (compare a.toInt b.toInt).isEq = (a == b) := by
  by_cases hab : a = b
  · subst hab
    simp
  · have hne : compare a.toInt b.toInt ≠ .eq := fun h =>
      hab (Int64.toInt_inj.1 (Std.LawfulEqCmp.eq_of_compare h))
    rw [beq_false_of_ne hab]
    revert hne
    cases compare a.toInt b.toInt <;> simp

theorem binary_int_int {op : BinOp} (h : op.isComparison = true) (a b : Int64) :
    binary op (.int a) (.int b) = .ok (.bool (op.holds (compare a.toInt b.toInt))) := by
  have heq := isEq_compare a b
  cases op <;> cases h
  case eq => simp only [binary, Value.equals, BinOp.holds, heq]
  case ne =>
    simp only [binary, Value.equals, BinOp.holds, ← heq]
    cases compare a.toInt b.toInt <;> rfl
  all_goals rfl

theorem binary_int_float {op : BinOp} (h : op.isComparison = true) (a : Int64) (b : Float) :
    binary op (.int a) (.float b) = .ok (.bool (op.holdsPartial (Binary64.intOrder a b))) := by
  cases op <;> cases h
  all_goals
    simp only [binary, Value.equals, compareValues, orderOf, BinOp.holdsPartial, bind, Except.bind]
    cases Binary64.intOrder a b with
    | none => rfl
    | some o => cases o <;> rfl

theorem binary_float_int {op : BinOp} (h : op.isComparison = true) (a : Float) (b : Int64) :
    binary op (.float a) (.int b) =
      .ok (.bool (op.holdsPartial ((Binary64.intOrder b a).map Ordering.swap))) := by
  cases op <;> cases h
  all_goals
    simp only [binary, Value.equals, compareValues, orderOf, BinOp.holdsPartial, bind, Except.bind]
    cases Binary64.intOrder b a with
    | none => rfl
    | some o => cases o <;> rfl

theorem binary_float_float {op : BinOp} (h : op.isComparison = true) (a b : Float) :
    binary op (.float a) (.float b) = .ok (.bool (op.holdsPartial (Binary64.order a b))) := by
  cases op <;> cases h
  all_goals
    simp only [binary, Value.equals, compareValues, orderOf, BinOp.holdsPartial, bind, Except.bind]
    cases Binary64.order a b with
    | none => rfl
    | some o => cases o <;> rfl

/-! ## Arithmetic of known numbers -/

theorem binary_intArith {op : BinOp} (h : op.hasIntKernel = true) (a b : Int64) :
    binary op (.int a) (.int b) = (intArith op a b).map Value.int := by
  cases op <;> cases h <;> rfl

theorem binary_floatArith {op : BinOp} (h : op.isArithmetic = true) {a b : Value} {x y : Float}
    (ha : a.asFloat? = some x) (hb : b.asFloat? = some y)
    (hint : ¬ (op.hasIntKernel = true ∧ a.asInt?.isSome = true ∧ b.asInt?.isSome = true)) :
    binary op a b = .ok (.float (floatArith op x y)) := by
  have hoperands : floatOperands a b = .ok (x, y) := by rw [floatOperands, ha, hb]
  cases op <;> cases h <;> simp only [binary, hoperands, Except.map]
  all_goals
    cases a <;> cases b <;>
      simp_all [BinOp.hasIntKernel, Value.asInt?, Value.asFloat?, floatOperands]

/-- Quotients and powers are floats. -/
theorem narrowed_binary_float {op : BinOp} (h : op = .div ∨ op = .pow) (a b : Value) :
    (binary op a b >>= Ty.narrowed .float) = binary op a b := by
  have hbinary : binary op a b =
      (floatOperands a b).map fun p => .float (floatArith op p.1 p.2) := by
    rcases h with rfl | rfl <;> rfl
  rw [hbinary]
  cases floatOperands a b <;> rfl

theorem Ty.eq_of_isNumeric {t : Ty} (h : t.isNumeric = true) : t = .integer ∨ t = .float := by
  cases t <;> simp [Ty.isNumeric] at h ⊢

namespace Emitted

variable {caller : Caller} {frame : Frame}

/-- Unboxed arithmetic on floats is the dynamic operator. -/
theorem run_floatArith {op : BinOp} (hop : op.isArithmetic = true) {l r : Emitted}
    (hl : l.Fits) (hr : r.Fits) (hnl : l.type.isNumeric = true) (hnr : r.type.isNumeric = true)
    (hint : ¬ (op.hasIntKernel = true ∧ l.type = .integer ∧ r.type = .integer)) (out : Ty) :
    run caller frame ⟨out, .float, .floatArith op l.toFloat r.toFloat⟩ = (do
      let a ← l.run caller frame
      let b ← r.run caller frame
      Run.ofExcept (AdaptiveScript.binary op a b)) := by
  rcases Ty.eq_of_isNumeric hnl with htl | htl <;> rcases Ty.eq_of_isNumeric hnr with htr | htr
  · have hkernel (x y : Int64) : AdaptiveScript.binary op (.int x) (.int y) =
        .ok (.float (floatArith op (Binary64.ofInt64 x) (Binary64.ofInt64 y))) :=
      binary_floatArith hop rfl rfl fun h => hint ⟨h.1, htl, htr⟩
    simp [run_of_integer hl htl, run_of_integer hr htr,
      eval_toFloat_of_integer hl htl, eval_toFloat_of_integer hr htr, hkernel]
  · have hkernel (x : Int64) (y : Float) : AdaptiveScript.binary op (.int x) (.float y) =
        .ok (.float (floatArith op (Binary64.ofInt64 x) y)) :=
      binary_floatArith hop rfl rfl fun h => by simpa [Value.asInt?] using h.2.2
    simp [run_of_integer hl htl, run_of_float hr htr,
      eval_toFloat_of_integer hl htl, hkernel]
  · have hkernel (x : Float) (y : Int64) : AdaptiveScript.binary op (.float x) (.int y) =
        .ok (.float (floatArith op x (Binary64.ofInt64 y))) :=
      binary_floatArith hop rfl rfl fun h => by simpa [Value.asInt?] using h.2.1
    simp [run_of_float hl htl, run_of_integer hr htr,
      eval_toFloat_of_integer hr htr, hkernel]
  · have hkernel (x y : Float) : AdaptiveScript.binary op (.float x) (.float y) =
        .ok (.float (floatArith op x y)) :=
      binary_floatArith hop rfl rfl fun h => by simpa [Value.asInt?] using h.2.1
    simp [run_of_float hl htl, run_of_float hr htr, hkernel]

/-- Code that goes through boxed operands. -/
theorem run_boxedBinary (op : BinOp) (l r : Emitted) (harith : op.isArithmetic = true →
      ¬ (l.type.isNumeric = true ∧ r.type.isNumeric = true)) :
    (boxedBinary op l r).run caller frame = (do
      let a ← l.run caller frame
      let b ← r.run caller frame
      Run.ofExcept (AdaptiveScript.binary op a b)) := by
  -- sums and the like of operands that are not both numbers have no known type
  have hunknown (hop : op.hasIntKernel = true) : Ty.binaryType op l.type r.type = .unknown := by
    have hnot := harith (by cases op <;> first | rfl | cases hop)
    cases op <;> cases hop <;> simp only [Ty.binaryType] <;>
      (rw [if_neg, if_neg]
       · simpa using hnot
       · rintro ⟨hl, hr⟩
         exact hnot ⟨by rw [hl]; rfl, by rw [hr]; rfl⟩)
  unfold boxedBinary
  cases op
  case eq => simp [AdaptiveScript.binary]
  case ne =>
    have hne (b : Bool) : (b == (BinOp.ne == BinOp.eq)) = !b := by cases b <;> rfl
    simp [AdaptiveScript.binary, hne]
  case concat => simp [AdaptiveScript.binary]
  case div =>
    simp only [run_narrow, eval, eval_boxed, bind_assoc, Run.ofExcept_bind, Ty.binaryType,
      narrowed_binary_float (.inl rfl)]
  case pow =>
    simp only [run_narrow, eval, eval_boxed, bind_assoc, Run.ofExcept_bind, Ty.binaryType,
      narrowed_binary_float (.inr rfl)]
  case lt => simp [AdaptiveScript.binary]
  case le => simp [AdaptiveScript.binary]
  case gt => simp [AdaptiveScript.binary]
  case ge => simp [AdaptiveScript.binary]
  all_goals
    simp only [hunknown rfl]
    simp [run_narrow, Ty.narrowed, Ty.rep, Rep.unbox, Rep.box, Except.map]

/-- Code of a binary operator is the dynamic operator, whichever kernel was chosen. -/
theorem run_binary (op : BinOp) {l r : Emitted} (hl : l.Fits) (hr : r.Fits) :
    (Emitted.binary op l r).run caller frame = (do
      let a ← l.run caller frame
      let b ← r.run caller frame
      Run.ofExcept (AdaptiveScript.binary op a b)) := by
  unfold Emitted.binary
  dsimp only
  split
  · next h =>
    obtain ⟨hop, htl, htr⟩ := h
    simp [run_of_integer hl htl, run_of_integer hr htr, binary_intArith hop]
  · next hint =>
    split
    · next h =>
      simp only [Bool.and_eq_true] at h
      exact run_floatArith h.1 hl hr h.2.1 h.2.2 hint _
    · next harith =>
      split
      · next h =>
        obtain ⟨hop, htl, htr⟩ := h
        simp [run_of_integer hl htl, run_of_integer hr htr, binary_int_int hop]
      · next hints =>
        split
        · next h =>
          simp only [Bool.and_eq_true] at h
          obtain ⟨hop, hnl, hnr⟩ := h
          -- at least one of the two numbers is a float
          split
          · next htl =>
            have htr : r.type = .float := (Ty.eq_of_isNumeric hnr).resolve_left
              fun htr => hints ⟨hop, htl, htr⟩
            simp [run_of_integer hl htl, run_of_float hr htr, binary_int_float hop]
          · next hnotl =>
            have htl : l.type = .float := (Ty.eq_of_isNumeric hnl).resolve_left hnotl
            split
            · next htr =>
              simp [run_of_float hl htl, run_of_integer hr htr, binary_float_int hop]
            · next hnotr =>
              have htr : r.type = .float := (Ty.eq_of_isNumeric hnr).resolve_left hnotr
              simp [run_of_float hl htl, run_of_float hr htr, binary_float_float hop]
        · refine run_boxedBinary op l r fun hop hnumeric => harith ?_
          simp only [hop, hnumeric.1, hnumeric.2, Bool.and_self]

/-! ### The type and the representation of operators -/

theorem type_binary (op : BinOp) (l r : Emitted) :
    (Emitted.binary op l r).type = Ty.binaryType op l.type r.type := by
  unfold Emitted.binary
  dsimp only
  have hboxed : (boxedBinary op l r).type = Ty.binaryType op l.type r.type := by
    unfold boxedBinary
    cases op <;> first | rfl | exact type_narrow _ _
  repeat' split
  all_goals first | rfl | exact hboxed

theorem fits_binary (op : BinOp) (l r : Emitted) : (Emitted.binary op l r).Fits := by
  unfold Emitted.binary
  dsimp only
  split
  · next h =>
    obtain ⟨hop, htl, htr⟩ := h
    cases op <;> cases hop <;> simp [Fits, Ty.binaryType, htl, htr, Ty.rep]
  · next hint =>
    split
    · next h =>
      simp only [Bool.and_eq_true] at h
      obtain ⟨hop, hnl, hnr⟩ := h
      rcases Ty.eq_of_isNumeric hnl with htl | htl <;>
        rcases Ty.eq_of_isNumeric hnr with htr | htr <;>
        cases op <;>
        simp_all [Fits, Ty.binaryType, Ty.rep, Ty.isNumeric, BinOp.isArithmetic, BinOp.hasIntKernel]
    · split
      · next h =>
        obtain ⟨hop, -⟩ := h
        cases op <;> cases hop <;> rfl
      · split
        · next h =>
          simp only [Bool.and_eq_true] at h
          obtain ⟨hop, -⟩ := h
          have hbool : (Ty.binaryType op l.type r.type).rep = .bool := by
            cases op <;> cases hop <;> rfl
          split
          · exact hbool.symm
          · split <;> exact hbool.symm
        · unfold boxedBinary
          cases op <;> first | rfl | exact fits_narrow _ _

/-! ### Short-circuit and unary operators -/

theorem logical_eq_narrow (op : LogicalOp) {l r : Emitted} (h : ¬ (l.rep = .bool ∧ r.rep = .bool)) :
    Emitted.logical op l r = narrow (l.type.join r.type) (.logical op l.boxed r.boxed) := by
  obtain ⟨tl, rl, cl⟩ := l
  obtain ⟨tr, rr, cr⟩ := r
  cases rl <;> cases rr <;> first | rfl | exact absurd ⟨rfl, rfl⟩ h

/-- Code of a short-circuit operator gives one of its operands. -/
theorem run_logical (op : LogicalOp) {l r : Emitted} (hl : l.Fits) (hr : r.Fits) :
    (Emitted.logical op l r).run caller frame = (do
      let a ← l.run caller frame
      shortCircuit op Value.isTruthy a (r.run caller frame)) := by
  by_cases hbool : l.rep = .bool ∧ r.rep = .bool
  · obtain ⟨tl, rl, cl⟩ := l
    obtain ⟨tr, rr, cr⟩ := r
    obtain ⟨rfl, rfl⟩ := hbool
    simp only [Emitted.logical, run_bool, eval, bind_assoc]
    refine bind_congr fun (x : Bool) => ?_
    cases op <;> cases x <;> simp [shortCircuit, Value.isTruthy]
  · rw [logical_eq_narrow op hbool, run_narrow]
    simp only [eval, eval_boxed, bind_assoc]
    by_cases htypes : l.type = r.type
    · -- both operands have the type of the result, so its check passes
      obtain ⟨t, rl, cl⟩ := l
      obtain ⟨tr, rr, cr⟩ := r
      cases htypes
      obtain rfl : rl = t.rep := hl
      obtain rfl : rr = t.rep := hr
      simp only [Ty.join_self, run, bind_assoc, pure_bind]
      refine bind_congr fun x => ?_
      cases op <;> cases hx : (t.rep.box x).isTruthy <;>
        simp [shortCircuit, hx, Ty.narrowed_box]
    · have hjoin : l.type.join r.type = .unknown := if_neg htypes
      have hpass (v : Value) : Ty.narrowed .unknown v = .ok v := rfl
      simp [hjoin, hpass]

theorem fits_logical (op : LogicalOp) {l r : Emitted} (hl : l.Fits) (hr : r.Fits) :
    (Emitted.logical op l r).Fits := by
  by_cases hbool : l.rep = .bool ∧ r.rep = .bool
  · obtain ⟨tl, rl, cl⟩ := l
    obtain ⟨tr, rr, cr⟩ := r
    obtain ⟨rfl, rfl⟩ := hbool
    cases tl <;> cases hl
    cases tr <;> cases hr
    rfl
  · rw [logical_eq_narrow op hbool]
    exact fits_narrow _ _

theorem type_logical (op : LogicalOp) (l r : Emitted) :
    (Emitted.logical op l r).type = l.type.join r.type := by
  unfold Emitted.logical
  split
  · rfl
  · exact type_narrow _ _

/-- Code of a unary operator is the dynamic operator. -/
theorem run_unary (op : UnOp) {e : Emitted} (he : e.Fits) :
    (Emitted.unary op e).run caller frame = (do
      let a ← e.run caller frame
      Run.ofExcept (AdaptiveScript.unary (← Run.heap).border op a)) := by
  have hunknown (c : Code .value) : (narrow .unknown c).run caller frame = eval caller frame c := by
    simp [run_narrow, Ty.narrowed, Ty.rep, Rep.unbox, Rep.box, Except.map]
  cases op with
  | not => simp [Emitted.unary, AdaptiveScript.unary, Run.map_heap_const]
  | len =>
    -- a length is an integer
    have hlen (border : TableId → Int64) (a : Value) :
        (AdaptiveScript.unary border .len a >>= Ty.narrowed .integer) =
          AdaptiveScript.unary border .len a := by
      cases a <;> rfl
    simp only [Emitted.unary, run_narrow, Ty.unaryType, eval, eval_boxed, bind_assoc,
      Run.ofExcept_bind, hlen]
  | neg =>
    obtain ⟨t, r, c⟩ := e
    cases r with
    | int => simp [Emitted.unary, AdaptiveScript.unary, Run.map_heap_const]
    | float => simp [Emitted.unary, AdaptiveScript.unary, Run.map_heap_const]
    | bool =>
      cases t <;> cases he
      simp [Emitted.unary, Ty.unaryType, Ty.isNumeric, hunknown]
    | value =>
      have htype : Ty.unaryType .neg t = .unknown := by
        cases t <;> first | rfl | cases he
      simp [Emitted.unary, htype, hunknown]

theorem fits_unary (op : UnOp) {e : Emitted} (he : e.Fits) : (Emitted.unary op e).Fits := by
  obtain ⟨t, r, c⟩ := e
  cases op <;> cases r <;> first | exact fits_narrow _ _ | rfl | (cases t <;> cases he; rfl)

theorem type_unary (op : UnOp) (e : Emitted) :
    (Emitted.unary op e).type = Ty.unaryType op e.type := by
  unfold Emitted.unary
  split
  all_goals first | rfl | exact type_narrow _ _

end Emitted

/-! ## Operands of numeric loops -/

/-- Code of the operands of a numeric loop examines them as values. -/
theorem evalRange_range {caller : Caller} {frame : Frame} {s l d : Emitted} (hs : s.Fits)
    (hl : l.Fits) (hd : d.Fits) : evalRange caller frame (Emit.range s l d) = (do
      let a ← s.run caller frame
      let b ← l.run caller frame
      let c ← d.run caller frame
      Run.ofExcept (Range.ofValues a b c)) := by
  unfold Emit.range
  split
  · next h =>
    -- an integer loop: start and step are integers, the limit is a number
    obtain ⟨hts, htd, hnl⟩ : s.type = .integer ∧ d.type = .integer ∧ l.type.isNumeric = true := by
      unfold Ty.loopType at h
      split at h
      · assumption
      · split at h <;> cases h
    rcases Ty.eq_of_isNumeric hnl with htl | htl
    · simp [evalRange, Emitted.run_of_integer hs hts, Emitted.run_of_integer hl htl,
        Emitted.run_of_integer hd htd, Range.ofValues, Value.asFloat?]
    · simp [evalRange, Emitted.run_of_integer hs hts, Emitted.run_of_float hl htl,
        Emitted.run_of_integer hd htd, Range.ofValues, Value.asFloat?]
  · next h =>
    -- a float loop: all are numbers, and start and step are not both integers
    obtain ⟨hnot, hns, hnl, hnd⟩ : ¬ (s.type = .integer ∧ d.type = .integer) ∧
        s.type.isNumeric = true ∧ l.type.isNumeric = true ∧ d.type.isNumeric = true := by
      unfold Ty.loopType at h
      split at h
      · cases h
      · next hint =>
        split at h
        · next hnum =>
          simp only [Bool.and_eq_true] at hnum
          exact ⟨fun hsd => hint ⟨hsd.1, hsd.2, hnum.1.2⟩, hnum.1.1, hnum.1.2, hnum.2⟩
        · cases h
    rcases Ty.eq_of_isNumeric hns with hts | hts
    · have htd : d.type = .float :=
        (Ty.eq_of_isNumeric hnd).resolve_left fun htd => hnot ⟨hts, htd⟩
      rcases Ty.eq_of_isNumeric hnl with htl | htl <;>
        simp [evalRange, Emitted.run_of_integer, Emitted.run_of_float,
          Emitted.eval_toFloat_of_integer, hs, hl, hd, hts, htl, htd, Range.ofValues,
          Value.asFloat?]
    · rcases Ty.eq_of_isNumeric hnl with htl | htl <;>
        rcases Ty.eq_of_isNumeric hnd with htd | htd <;>
        simp [evalRange, Emitted.run_of_integer, Emitted.run_of_float,
          Emitted.eval_toFloat_of_integer, hs, hl, hd, hts, htl, htd, Range.ofValues,
          Value.asFloat?]
  · simp [evalRange]

end AdaptiveScript
