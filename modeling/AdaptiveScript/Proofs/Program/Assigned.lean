import AdaptiveScript.Program

/-!
# Definite assignment

A local that is neither a parameter nor assigned yet holds nil, whatever type was found for
it.  This module says when a function never reads such a local: on every path to a read
there is a declaration, an assignment or a loop that gives the local a value.

The rules are the usual ones.  A branch assigns what both of its blocks assign.  A loop may
run no round at all, so it assigns nothing, but its body may count on the control variable.
Nothing runs after a `return` or a `break`, so there every local counts as assigned.

Function literals do not read the locals that they capture.
-/

namespace AdaptiveScript

/-- A set of local slots. -/
abbrev Slots := Nat → Bool

namespace Slots

/-- All slots. -/
def all : Slots :=
  fun _ => true

/-- The slots below a number. -/
def below (n : Nat) : Slots :=
  fun slot => decide (slot < n)

/-- One slot more. -/
def insert (D : Slots) (slot : Nat) : Slots :=
  fun other => other == slot || D other

/-- The slots in both of two sets. -/
def inter (D E : Slots) : Slots :=
  fun slot => D slot && E slot

/-- All slots of one set are in another. -/
def Subset (D E : Slots) : Prop :=
  ∀ slot, D slot = true → E slot = true

theorem Subset.refl (D : Slots) : D.Subset D :=
  fun _ h => h

theorem Subset.trans {a b c : Slots} (hab : a.Subset b) (hbc : b.Subset c) : a.Subset c :=
  fun slot h => hbc slot (hab slot h)

theorem subset_insert (D : Slots) (slot : Nat) : D.Subset (D.insert slot) := by
  intro other h
  simp [insert, h]

theorem subset_inter {a b c : Slots} (hb : a.Subset b) (hc : a.Subset c) :
    a.Subset (b.inter c) := by
  intro slot h
  simp [inter, hb slot h, hc slot h]

theorem inter_subset_left (D E : Slots) : (D.inter E).Subset D := by
  intro slot h
  simp only [inter, Bool.and_eq_true] at h
  exact h.1

theorem inter_subset_right (D E : Slots) : (D.inter E).Subset E := by
  intro slot h
  simp only [inter, Bool.and_eq_true] at h
  exact h.2

theorem subset_all (D : Slots) : D.Subset all :=
  fun _ _ => rfl

end Slots

/-! ## Reads -/

mutual

/-- Whether an expression reads only the given locals. -/
def Expr.readsOnly (D : Slots) : Expr → Bool
  | .literal _ => true
  | .slot i => D i
  | .upvalue _ => true
  | .global _ => true
  | .binary _ left right => left.readsOnly D && right.readsOnly D
  | .logical _ left right => left.readsOnly D && right.readsOnly D
  | .unary _ operand => operand.readsOnly D
  | .index target key => target.readsOnly D && key.readsOnly D
  | .call callee args => callee.readsOnly D && Expr.allReadOnly D args
  | .function _ _ => true
  | .table _ entries => Expr.entriesReadOnly D entries

/-- Whether some expressions read only the given locals. -/
def Expr.allReadOnly (D : Slots) : List Expr → Bool
  | [] => true
  | e :: es => e.readsOnly D && Expr.allReadOnly D es

/-- Whether the entries of a table constructor read only the given locals. -/
def Expr.entriesReadOnly (D : Slots) : List Entry → Bool
  | [] => true
  | .named _ value :: rest => value.readsOnly D && Expr.entriesReadOnly D rest
  | .keyed key value :: rest =>
    key.readsOnly D && value.readsOnly D && Expr.entriesReadOnly D rest
  | .positional value :: rest => value.readsOnly D && Expr.entriesReadOnly D rest

end

/-- Whether an expression that may be absent reads only the given locals. -/
def Expr.optionReadsOnly (D : Slots) (e? : Option Expr) : Bool :=
  (e?.map (Expr.readsOnly D)).getD true

/-! ## Assignments -/

mutual

/-- The locals that are assigned after a statement, given those assigned before. -/
def Stmt.assigns (D : Slots) : Stmt → Slots
  | .declare slot _ => D.insert slot
  | .assign slot _ => D.insert slot
  | .branch _ thenBlock elseBlock =>
    (Stmt.blockAssigns D thenBlock).inter (Stmt.blockAssigns D elseBlock)
  | .ret _ => .all
  | .breakLoop => .all
  | _ => D

/-- The locals that are assigned after a block. -/
def Stmt.blockAssigns (D : Slots) : List Stmt → Slots
  | [] => D
  | s :: rest => Stmt.blockAssigns (s.assigns D) rest

end

mutual

/-- Whether a statement reads a local only when it is assigned, given those assigned
before. -/
def Stmt.readsAssigned (D : Slots) : Stmt → Bool
  | .declare _ value => Expr.optionReadsOnly D value
  | .assign _ value => value.readsOnly D
  | .setUpvalue _ value => value.readsOnly D
  | .setGlobal _ value => value.readsOnly D
  | .setIndex target key value => target.readsOnly D && key.readsOnly D && value.readsOnly D
  | .expr e => e.readsOnly D
  | .branch cond thenBlock elseBlock =>
    cond.readsOnly D && Stmt.blockReadsAssigned D thenBlock && Stmt.blockReadsAssigned D elseBlock
  | .whileLoop cond body => cond.readsOnly D && Stmt.blockReadsAssigned D body
  | .forLoop slot start limit step body =>
    start.readsOnly D && limit.readsOnly D && Expr.optionReadsOnly D step &&
      Stmt.blockReadsAssigned (D.insert slot) body
  | .ret values => Expr.allReadOnly D values
  | .breakLoop => true

/-- Whether a block reads a local only when it is assigned. -/
def Stmt.blockReadsAssigned (D : Slots) : List Stmt → Bool
  | [] => true
  | s :: rest => s.readsAssigned D && Stmt.blockReadsAssigned (s.assigns D) rest

end

/-- Whether a function reads a local only when it is a parameter or assigned. -/
def Prototype.readsAssigned (proto : Prototype) : Bool :=
  Stmt.blockReadsAssigned (.below proto.paramCount) proto.body

/-- Whether all functions of a program read a local only when it is assigned. -/
def Program.readsAssigned (program : Program) : Bool :=
  program.prototypes.all Prototype.readsAssigned

theorem Program.readsAssigned_of_mem {program : Program} (h : program.readsAssigned = true)
    {proto : Prototype} (hproto : proto ∈ program.prototypes) : proto.readsAssigned = true :=
  Array.all_eq_true_iff_forall_mem.1 h proto hproto

mutual

/-- Statements do not take assignments back. -/
theorem Stmt.subset_assigns (D : Slots) : ∀ s : Stmt, D.Subset (s.assigns D)
  | .declare slot _ => by
    rw [assigns]
    exact Slots.subset_insert D slot
  | .assign slot _ => by
    rw [assigns]
    exact Slots.subset_insert D slot
  | .branch _ thenBlock elseBlock => by
    rw [assigns]
    exact Slots.subset_inter (subset_blockAssigns D thenBlock) (subset_blockAssigns D elseBlock)
  | .ret _ => by
    rw [assigns]
    exact Slots.subset_all D
  | .breakLoop => by
    rw [assigns]
    exact Slots.subset_all D
  | .setUpvalue _ _ => .refl D
  | .setGlobal _ _ => .refl D
  | .setIndex _ _ _ => .refl D
  | .expr _ => .refl D
  | .whileLoop _ _ => .refl D
  | .forLoop _ _ _ _ _ => .refl D

theorem Stmt.subset_blockAssigns (D : Slots) : ∀ block : List Stmt,
    D.Subset (Stmt.blockAssigns D block)
  | [] => .refl D
  | s :: rest => by
    rw [blockAssigns]
    exact (subset_assigns D s).trans (subset_blockAssigns (s.assigns D) rest)

end

end AdaptiveScript
