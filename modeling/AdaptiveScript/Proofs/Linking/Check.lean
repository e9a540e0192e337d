import AdaptiveScript.Call
import AdaptiveScript.Proofs.Machine.Sound

/-!
# Checks before code runs

A routine checks its arguments and the cells of its upvalues, and a bound overload checks
its patterns.  This module says when these checks pass.  Two facts carry the rest.  The type
that an engine sees of a value admits that value (`Ty.admits_ofValue`), and a pattern that
accepts a type takes every value of it (`Pattern.admits_of_accepts`).  So code that was
chosen by the types of values is never turned down by those values.

When a check fails, its error is one of the kinds that programs know, never the one that
specialized code raises when it meets a value of another type than it counted on.
-/

namespace AdaptiveScript

/-! ## Types of values -/

namespace Ty

variable {shapes : Shapes} {heap : Heap}

/-- The type that an engine sees of a value admits it. -/
theorem admits_ofValue (hf : shapes.Forest) (hlaid : heap.Laid shapes) (registry : Registry)
    (v : Value) : (ofValue registry heap v).admits shapes heap v = true := by
  cases v with
  | table ref =>
    unfold ofValue
    dsimp only
    split
    · next h =>
      refine admits_tableOf.2 ⟨ref, rfl, ?_⟩
      exact (hf.resolve_of_frozen ((hlaid ref).compiled h.1).frozen).symm
    · rfl
  | function ref =>
    cases hc : heap.closureOf? ref with
    | none => simp only [ofValue, hc, admits_unknown]
    | some c =>
      simp only [ofValue, hc]
      exact admits_function.2 ⟨ref, c, rfl, hc, rfl⟩
  | _ => rfl

/-- The type that an engine sees of a value names a shape that exists. -/
theorem has_ofValue (hlaid : heap.Laid shapes) (registry : Registry) (v : Value) :
    (ofValue registry heap v).Has shapes := by
  cases v with
  | table ref =>
    unfold ofValue
    dsimp only
    split
    · next h => exact ((hlaid ref).compiled h.1).has
    · trivial
  | function ref =>
    cases hc : heap.closureOf? ref <;> simp only [ofValue, hc] <;> trivial
  | _ => trivial

theorem has_canonical (hf : shapes.Forest) {type : Ty} (h : type.Has shapes) :
    (type.canonical shapes).Has shapes := by
  cases type with
  | tableOf shape => exact hf.has_resolve h
  | _ => exact h

theorem canonical_canonical (hf : shapes.Forest) (type : Ty) :
    (type.canonical shapes).canonical shapes = type.canonical shapes := by
  cases type with
  | tableOf shape =>
    show Ty.tableOf (shapes.resolve (shapes.resolve shape)) = _
    rw [hf.resolve_resolve]
    rfl
  | _ => rfl

theorem map_canonical_canonical (hf : shapes.Forest) (types : List Ty) :
    (types.map (Ty.canonical shapes)).map (Ty.canonical shapes) =
      types.map (Ty.canonical shapes) := by
  rw [List.map_map]
  exact List.map_congr_left fun type _ => canonical_canonical hf type

end Ty

/-! ## The errors of checks -/

/-- The error that specialized code raises when it meets a value of another type than it
counted on. -/
def RuntimeError.isViolation : RuntimeError → Bool
  | .violation _ _ => true
  | _ => false

/-- The errors that only wrong code raises: it counted on another type, or it captures a local
that is not kept in a cell. -/
def RuntimeError.isCodeFault : RuntimeError → Bool
  | .violation _ _ => true
  | .unboxedCapture _ => true
  | _ => false

theorem isViolation_of_isCodeFault {e : RuntimeError} (h : e.isCodeFault = false) :
    e.isViolation = false := by
  cases e with
  | violation => cases h
  | _ => rfl

theorem Ty.isCodeFault_check {shapes : Shapes} {heap : Heap} {type : Ty} {v : Value}
    {e : RuntimeError} (h : type.check shapes heap v = .error e) : e.isCodeFault = false := by
  cases type <;> cases v <;> simp [check, Value.expectNil, Value.expectBool, Value.expectInt,
    Value.expectFloat, Value.expectStr, Value.expectTable, Value.expectFunction, Except.map, bind,
    Except.bind] at h
  all_goals try (subst h; rfl)
  all_goals
    split at h
    all_goals try split at h
    all_goals cases h
    all_goals rfl

namespace Specialization

variable {shapes : Shapes} {heap : Heap}

theorem isCodeFault_checkArgs {e : RuntimeError} : ∀ {types : List Ty} {args : List Value},
    checkArgs shapes heap types args = .error e → e.isCodeFault = false
  | [], _, h => by cases h
  | type :: types, args, h => by
    unfold checkArgs at h
    cases hcheck : type.check shapes heap (args.headD .nil) with
    | error reason =>
      rw [hcheck] at h
      cases h
      exact Ty.isCodeFault_check hcheck
    | ok _ =>
      rw [hcheck] at h
      exact isCodeFault_checkArgs h

theorem isCodeFault_checkCells {e : RuntimeError} : ∀ {types : List Ty} {cells : List CellId},
    checkCells shapes heap types cells = .error e → e.isCodeFault = false
  | [], _, h => by cases h
  | _ :: _, [], h => by cases h
  | type :: types, cell :: cells, h => by
    unfold checkCells at h
    cases hcheck : type.check shapes heap (heap.cell cell) with
    | error reason =>
      rw [hcheck] at h
      cases h
      exact Ty.isCodeFault_check hcheck
    | ok _ =>
      rw [hcheck] at h
      exact isCodeFault_checkCells h

theorem isCodeFault_check {spec : Specialization} {cells : List CellId} {args : List Value}
    {e : RuntimeError} (h : spec.check shapes heap cells args = .error e) :
    e.isCodeFault = false := by
  unfold check at h
  cases hargs : checkArgs shapes heap (spec.signature.args.take spec.paramCount) args with
  | error reason =>
    rw [hargs] at h
    cases h
    exact isCodeFault_checkArgs hargs
  | ok _ =>
    rw [hargs] at h
    by_cases hlength : cells.length = spec.signature.upvalues.length
    · simp only [ne_eq, hlength, not_true_eq_false, ↓reduceIte] at h
      exact isCodeFault_checkCells h
    · simp only [ne_eq, hlength, not_false_eq_true, ↓reduceIte] at h
      cases h
      rfl

/-! ## When checks pass -/

/-- Arguments are checked one by one; missing ones are nil. -/
theorem checkArgs_eq_ok_iff : ∀ {types : List Ty} {args : List Value},
    checkArgs shapes heap types args = .ok () ↔ ∀ (i : Nat) (type : Ty), types[i]? = some type →
      type.admits shapes heap (args[i]?.getD .nil) = true
  | [], args => by simp [checkArgs]
  | type :: types, args => by
    have hhead : args.headD .nil = args[0]?.getD .nil := by cases args <;> rfl
    have htail (i : Nat) : args.tail[i]? = args[i + 1]? := by simp
    unfold checkArgs
    constructor
    · intro h i
      cases hcheck : type.check shapes heap (args.headD .nil) with
      | error reason =>
        rw [hcheck] at h
        cases h
      | ok u =>
        rw [hcheck] at h
        cases i with
        | zero =>
          rintro other ⟨⟩
          rw [← hhead]
          exact Ty.check_eq_ok_iff.1 hcheck
        | succ i =>
          intro other hother
          rw [← htail]
          exact checkArgs_eq_ok_iff.1 h i other hother
    · intro h
      have hcheck : type.check shapes heap (args.headD .nil) = .ok () := by
        rw [hhead]
        exact Ty.check_eq_ok_iff.2 (h 0 type rfl)
      rw [hcheck]
      refine checkArgs_eq_ok_iff.2 fun i other hother => ?_
      rw [htail]
      exact h (i + 1) other hother

/-- Cells are checked one by one. -/
theorem checkCells_eq_ok_iff : ∀ {types : List Ty} {cells : List CellId},
    checkCells shapes heap types cells = .ok () ↔ ∀ (i : Nat) (type : Ty) (cell : CellId),
      types[i]? = some type → cells[i]? = some cell →
      type.admits shapes heap (heap.cell cell) = true
  | [], cells => by simp [checkCells]
  | type :: types, [] => by simp [checkCells]
  | type :: types, cell :: cells => by
    unfold checkCells
    constructor
    · intro h i
      cases hcheck : type.check shapes heap (heap.cell cell) with
      | error reason =>
        rw [hcheck] at h
        cases h
      | ok u =>
        rw [hcheck] at h
        cases i with
        | zero =>
          rintro other c ⟨⟩ ⟨⟩
          exact Ty.check_eq_ok_iff.1 hcheck
        | succ i => exact checkCells_eq_ok_iff.1 h i
    · intro h
      rw [Ty.check_eq_ok_iff.2 (h 0 type cell rfl rfl)]
      exact checkCells_eq_ok_iff.2 fun i => h (i + 1)

/-- What the check of a routine that is entered found. -/
structure Passes (spec : Specialization) (shapes : Shapes) (heap : Heap) (cells : List CellId)
    (args : List Value) : Prop where
  args : ∀ (i : Nat) (type : Ty), (spec.signature.args.take spec.paramCount)[i]? = some type →
    type.admits shapes heap (args[i]?.getD .nil) = true
  length : cells.length = spec.signature.upvalues.length
  cells : ∀ (i : Nat) (type : Ty) (cell : CellId), spec.signature.upvalues[i]? = some type →
    cells[i]? = some cell → type.admits shapes heap (heap.cell cell) = true

theorem check_eq_ok_iff {spec : Specialization} {cells : List CellId} {args : List Value} :
    spec.check shapes heap cells args = .ok () ↔ spec.Passes shapes heap cells args := by
  unfold check
  constructor
  · intro h
    cases hargs : checkArgs shapes heap (spec.signature.args.take spec.paramCount) args with
    | error reason =>
      rw [hargs] at h
      cases h
    | ok u =>
      rw [hargs] at h
      by_cases hlength : cells.length = spec.signature.upvalues.length
      · simp only [ne_eq, hlength, not_true_eq_false, ↓reduceIte] at h
        exact ⟨checkArgs_eq_ok_iff.1 hargs, hlength, checkCells_eq_ok_iff.1 h⟩
      · simp only [ne_eq, hlength, not_false_eq_true, ↓reduceIte] at h
        cases h
  · intro h
    rw [checkArgs_eq_ok_iff.2 h.args]
    simp only [ne_eq, h.length, not_true_eq_false, ↓reduceIte]
    exact checkCells_eq_ok_iff.2 h.cells

end Specialization

/-! ## Patterns -/

/-- A pattern that accepts a type takes every value of it. -/
theorem Pattern.admits_of_accepts {shapes : Shapes} {heap : Heap} {pattern : Pattern} {type : Ty}
    {v : Value} (h : pattern.accepts type = true) (hv : type.admits shapes heap v = true) :
    pattern.admits shapes heap v = true := by
  cases pattern with
  | any => rfl
  | exact expected =>
    show expected.admits shapes heap v = true
    unfold accepts at h
    split at h
    · next heq => cases heq
    · next heq =>
      -- tables of one shape are tables
      cases heq
      obtain ⟨ref, rfl, -⟩ := Ty.admits_tableOf.1 hv
      rfl
    · next heq _ =>
      cases heq
      rw [eq_of_beq h]
      exact hv

namespace Machine

/-- Arguments are as many as there are types, and each has its type. -/
structure AdmitsAll (m : Machine) (types : List Ty) (args : List Value) : Prop where
  length : args.length = types.length
  admits : ∀ (i : Nat) (type : Ty) (v : Value), types[i]? = some type → args[i]? = some v →
    m.Admits type v

theorem AdmitsAll.tail {m : Machine} {type : Ty} {types : List Ty} {v : Value} {args : List Value}
    (h : m.AdmitsAll (type :: types) (v :: args)) : m.AdmitsAll types args :=
  ⟨Nat.succ.inj h.length, fun i => h.admits (i + 1)⟩

/-- The types that an engine sees of arguments admit them. -/
theorem admitsAll_typeOf {m : Machine} (hf : m.shapes.Forest) (hlaid : m.heap.Laid m.shapes)
    (engine : EngineId) (args : List Value) : m.AdmitsAll (args.map (m.typeOf engine)) args := by
  refine ⟨by simp, fun i type v htype hv => ?_⟩
  rw [List.getElem?_map, hv] at htype
  cases htype
  exact Ty.admits_ofValue hf hlaid _ v

end Machine

/-- An overload whose patterns accept types takes all values of these types. -/
theorem Overload.admits_of_accepts {m : Machine} {overload : Overload} {types : List Ty}
    {args : List Value} (h : overload.accepts types = true) (hargs : m.AdmitsAll types args) :
    overload.admits m.shapes m.heap args = true := by
  obtain ⟨params, action⟩ := overload
  simp only [accepts, admits, Bool.and_eq_true, beq_iff_eq] at h ⊢
  obtain ⟨hlength, hall⟩ := h
  refine ⟨hlength.trans hargs.length.symm, ?_⟩
  clear hlength
  induction params generalizing types args with
  | nil => rfl
  | cons pattern params ih =>
    cases types with
    | nil =>
      have hnil : args = [] := List.length_eq_zero_iff.1 hargs.length
      rw [hnil]
      rfl
    | cons type types =>
      cases args with
      | nil => rfl
      | cons v args =>
        rw [List.zip_cons_cons, List.all_cons, Bool.and_eq_true] at hall ⊢
        exact ⟨Pattern.admits_of_accepts hall.1 (hargs.admits 0 type v rfl rfl),
          ih hargs.tail hall.2⟩

end AdaptiveScript
