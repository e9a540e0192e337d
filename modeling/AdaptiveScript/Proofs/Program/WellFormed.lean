import AdaptiveScript.Program

/-!
# Well-formed programs

A body is well formed if every local and upvalue it uses is one of the function, every
function literal captures as many variables as its prototype has upvalues, and every break
stands in a loop of the body.  This is a condition on the program text alone: no type, no
shape and no signature occurs in it.
-/

namespace AdaptiveScript

theorem Expr.eq_of_constantKey? {key : Expr} {name : String} (h : key.constantKey? = some name) :
    key = .literal (.str name) := by
  unfold Expr.constantKey? at h
  split at h
  · cases h
    rfl
  · cases h

/-- The function has what a literal captures. -/
def Capture.InRange (proto : Prototype) : Capture → Prop
  | .slot index => index < proto.localCount
  | .upvalue index => index < proto.upvalues.size

/-- How many upvalues a prototype declares. -/
def Program.upvalueCount (program : Program) (ref : PrototypeRef) : Nat :=
  ((program.prototype? ref).map fun proto => proto.upvalues.size).getD 0

mutual

/-- An expression in the body of a function is well formed. -/
def Expr.WellFormed (program : Program) (proto : Prototype) : Expr → Prop
  | .literal _ => True
  | .slot i => i < proto.localCount
  | .upvalue i => i < proto.upvalues.size
  | .global _ => True
  | .binary _ left right => left.WellFormed program proto ∧ right.WellFormed program proto
  | .logical _ left right => left.WellFormed program proto ∧ right.WellFormed program proto
  | .unary _ operand => operand.WellFormed program proto
  | .index target key => target.WellFormed program proto ∧ key.WellFormed program proto
  | .call callee args => callee.WellFormed program proto ∧ Expr.AllWellFormed program proto args
  | .function ref captures =>
    captures.length = program.upvalueCount ref ∧ ∀ c ∈ captures, c.InRange proto
  | .table _ entries => Expr.EntriesWellFormed program proto entries

/-- Some expressions are well formed. -/
def Expr.AllWellFormed (program : Program) (proto : Prototype) : List Expr → Prop
  | [] => True
  | e :: es => e.WellFormed program proto ∧ Expr.AllWellFormed program proto es

/-- The entries of a table constructor are well formed. -/
def Expr.EntriesWellFormed (program : Program) (proto : Prototype) : List Entry → Prop
  | [] => True
  | .named _ value :: rest =>
    value.WellFormed program proto ∧ Expr.EntriesWellFormed program proto rest
  | .keyed key value :: rest => key.WellFormed program proto ∧ value.WellFormed program proto ∧
    Expr.EntriesWellFormed program proto rest
  | .positional value :: rest =>
    value.WellFormed program proto ∧ Expr.EntriesWellFormed program proto rest

end

theorem Expr.wellFormed_of_constantKey? {program : Program} {proto : Prototype} {key : Expr}
    {name : String} (h : key.constantKey? = some name) : key.WellFormed program proto := by
  rw [Expr.eq_of_constantKey? h, Expr.WellFormed]
  trivial

mutual

/-- A statement in the body of a function is well formed; `inLoop` tells whether a loop of
the body encloses it. -/
def Stmt.WellFormed (program : Program) (proto : Prototype) (inLoop : Bool) : Stmt → Prop
  | .declare slot value => slot < proto.localCount ∧ ∀ e ∈ value, e.WellFormed program proto
  | .assign slot value => slot < proto.localCount ∧ value.WellFormed program proto
  | .setUpvalue index value => index < proto.upvalues.size ∧ value.WellFormed program proto
  | .setGlobal _ value => value.WellFormed program proto
  | .setIndex target key value => target.WellFormed program proto ∧
    key.WellFormed program proto ∧ value.WellFormed program proto
  | .expr e => e.WellFormed program proto
  | .branch cond thenBlock elseBlock => cond.WellFormed program proto ∧
    Stmt.BlockWellFormed program proto inLoop thenBlock ∧
    Stmt.BlockWellFormed program proto inLoop elseBlock
  | .whileLoop cond body =>
    cond.WellFormed program proto ∧ Stmt.BlockWellFormed program proto true body
  | .forLoop slot start limit step body => slot < proto.localCount ∧
    start.WellFormed program proto ∧ limit.WellFormed program proto ∧
    (∀ e ∈ step, e.WellFormed program proto) ∧ Stmt.BlockWellFormed program proto true body
  | .ret values => Expr.AllWellFormed program proto values
  | .breakLoop => inLoop = true

/-- The statements of a block are well formed. -/
def Stmt.BlockWellFormed (program : Program) (proto : Prototype) (inLoop : Bool) :
    List Stmt → Prop
  | [] => True
  | s :: rest =>
    s.WellFormed program proto inLoop ∧ Stmt.BlockWellFormed program proto inLoop rest

end

/-- All prototypes are well formed. -/
def Program.WellFormed (program : Program) : Prop :=
  ∀ proto ∈ program.prototypes, Stmt.BlockWellFormed program proto false proto.body

end AdaptiveScript
