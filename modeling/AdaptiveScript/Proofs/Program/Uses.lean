import AdaptiveScript.Error
import AdaptiveScript.Proofs.Program.WellFormed

/-!
# What a body uses

A body uses locals and upvalues of its function, prototypes that have as many upvalues as a literal
captures, and loops to break off.  `Stmt.blockUses` lists these uses in the order in which code is
emitted: a node before its parts, and the parts from left to right.  Nothing is left out, be it
reached or not.

A body is well formed if all its uses are legal (`Stmt.blockWellFormed_iff`).  If not, the first use
that is not legal has an error of its own (`Use.firstFault`).
-/

namespace AdaptiveScript

/-- Something that a node of a body needs. -/
inductive Use where
  | slot (index : Nat)
  | upvalue (index : Nat)
  /-- A prototype for a literal that captures so many variables. -/
  | literal (ref : PrototypeRef) (captured : Nat)
  /-- A loop to break off; there is one if `inLoop` holds. -/
  | loop (inLoop : Bool)
  deriving DecidableEq

namespace Use

variable (program : Program) (proto : Prototype)

/-- What is needed is there. -/
def Legal : Use → Prop
  | .slot index => index < proto.localCount
  | .upvalue index => index < proto.upvalues.size
  | .literal ref captured => captured = program.upvalueCount ref
  | .loop inLoop => inLoop = true

instance : DecidablePred (Legal program proto)
  | .slot index => inferInstanceAs (Decidable (index < proto.localCount))
  | .upvalue index => inferInstanceAs (Decidable (index < proto.upvalues.size))
  | .literal ref captured => inferInstanceAs (Decidable (captured = program.upvalueCount ref))
  | .loop inLoop => inferInstanceAs (Decidable (inLoop = true))

/-- The error if what is needed is not there. -/
def error : Use → CompileError
  | .slot index => .badLocal proto.ref.name index proto.localCount
  | .upvalue index => .badUpvalue proto.ref.name index proto.upvalues.size
  | .literal ref captured => .captureCount ref.name captured (program.upvalueCount ref)
  | .loop _ => .breakOutsideLoop proto.ref.name

/-- The error of the first use that is not legal. -/
def firstFault (uses : List Use) : Option CompileError :=
  (uses.find? fun use => ¬ use.Legal program proto).map (error program proto)

variable {program proto}

theorem firstFault_cons_of_legal {use : Use} (h : use.Legal program proto) (rest : List Use) :
    firstFault program proto (use :: rest) = firstFault program proto rest := by
  simp [firstFault, h]

theorem firstFault_cons_of_not_legal {use : Use} (h : ¬ use.Legal program proto)
    (rest : List Use) :
    firstFault program proto (use :: rest) = some (use.error program proto) := by
  simp [firstFault, h]

theorem firstFault_append (uses others : List Use) : firstFault program proto (uses ++ others) =
    (firstFault program proto uses).or (firstFault program proto others) := by
  rw [firstFault, List.find?_append, Option.map_or]
  rfl

theorem firstFault_eq_none_iff {uses : List Use} :
    firstFault program proto uses = none ↔ ∀ use ∈ uses, use.Legal program proto := by
  simp [firstFault]

end Use

/-- What a literal needs to capture a variable. -/
def Capture.use : Capture → Use
  | .slot index => .slot index
  | .upvalue index => .upvalue index

mutual

/-- The uses in an expression. -/
def Expr.uses : Expr → List Use
  | .literal _ => []
  | .slot i => [.slot i]
  | .upvalue i => [.upvalue i]
  | .global _ => []
  | .binary _ left right => left.uses ++ right.uses
  | .logical _ left right => left.uses ++ right.uses
  | .unary _ operand => operand.uses
  | .index target key => target.uses ++ key.uses
  | .call callee args => callee.uses ++ Expr.listUses args
  | .function ref captures => .literal ref captures.length :: captures.map Capture.use
  | .table _ entries => Expr.entryUses entries

/-- The uses in a list of expressions. -/
def Expr.listUses : List Expr → List Use
  | [] => []
  | e :: es => e.uses ++ Expr.listUses es

/-- The uses in a table constructor. -/
def Expr.entryUses : List Entry → List Use
  | [] => []
  | .named _ value :: rest => value.uses ++ Expr.entryUses rest
  | .keyed key value :: rest => key.uses ++ value.uses ++ Expr.entryUses rest
  | .positional value :: rest => value.uses ++ Expr.entryUses rest

end

/-- A constant text key uses nothing. -/
theorem Expr.uses_of_constantKey? {key : Expr} {name : String}
    (h : key.constantKey? = some name) : key.uses = [] := by
  rw [Expr.eq_of_constantKey? h, Expr.uses]

/-- The uses in an expression that may be absent. -/
def Expr.optionUses : Option Expr → List Use
  | some e => e.uses
  | none => []

mutual

/-- The uses in a statement; `inLoop` tells whether a loop of the body encloses it. -/
def Stmt.uses (inLoop : Bool) : Stmt → List Use
  | .declare slot value => .slot slot :: Expr.optionUses value
  | .assign slot value => .slot slot :: value.uses
  | .setUpvalue index value => .upvalue index :: value.uses
  | .setGlobal _ value => value.uses
  | .setIndex target key value => target.uses ++ key.uses ++ value.uses
  | .expr e => e.uses
  | .branch cond thenBlock elseBlock =>
    cond.uses ++ Stmt.blockUses inLoop thenBlock ++ Stmt.blockUses inLoop elseBlock
  | .whileLoop cond body => cond.uses ++ Stmt.blockUses true body
  | .forLoop slot start limit step body => .slot slot ::
    (start.uses ++ limit.uses ++ Expr.optionUses step ++ Stmt.blockUses true body)
  | .ret values => Expr.listUses values
  | .breakLoop => [.loop inLoop]

/-- The uses in a block. -/
def Stmt.blockUses (inLoop : Bool) : List Stmt → List Use
  | [] => []
  | s :: rest => s.uses inLoop ++ Stmt.blockUses inLoop rest

end

/-! ## Well-formed bodies -/

section

variable {program : Program} {proto : Prototype}

theorem Capture.legal_use (c : Capture) : c.use.Legal program proto ↔ c.InRange proto := by
  cases c <;> rfl

mutual

theorem Expr.wellFormed_iff : ∀ e : Expr,
    e.WellFormed program proto ↔ ∀ use ∈ e.uses, use.Legal program proto
  | .literal _ => by simp [Expr.WellFormed, Expr.uses]
  | .slot _ => by simp [Expr.WellFormed, Expr.uses, Use.Legal]
  | .upvalue _ => by simp [Expr.WellFormed, Expr.uses, Use.Legal]
  | .global _ => by simp [Expr.WellFormed, Expr.uses]
  | .binary _ left right => by
    rw [Expr.WellFormed, Expr.uses, List.forall_mem_append, Expr.wellFormed_iff left,
      Expr.wellFormed_iff right]
  | .logical _ left right => by
    rw [Expr.WellFormed, Expr.uses, List.forall_mem_append, Expr.wellFormed_iff left,
      Expr.wellFormed_iff right]
  | .unary _ operand => by rw [Expr.WellFormed, Expr.uses, Expr.wellFormed_iff operand]
  | .index target key => by
    rw [Expr.WellFormed, Expr.uses, List.forall_mem_append, Expr.wellFormed_iff target,
      Expr.wellFormed_iff key]
  | .call callee args => by
    rw [Expr.WellFormed, Expr.uses, List.forall_mem_append, Expr.wellFormed_iff callee,
      Expr.allWellFormed_iff args]
  | .function ref captures => by
    rw [Expr.WellFormed, Expr.uses, List.forall_mem_cons, List.forall_mem_map]
    simp only [Capture.legal_use]
    rfl
  | .table _ entries => by rw [Expr.WellFormed, Expr.uses, Expr.entriesWellFormed_iff entries]

theorem Expr.allWellFormed_iff : ∀ es : List Expr,
    Expr.AllWellFormed program proto es ↔ ∀ use ∈ Expr.listUses es, use.Legal program proto
  | [] => by simp [Expr.AllWellFormed, Expr.listUses]
  | e :: es => by
    rw [Expr.AllWellFormed, Expr.listUses, List.forall_mem_append, Expr.wellFormed_iff e,
      Expr.allWellFormed_iff es]

theorem Expr.entriesWellFormed_iff : ∀ entries : List Entry,
    Expr.EntriesWellFormed program proto entries ↔
      ∀ use ∈ Expr.entryUses entries, use.Legal program proto
  | [] => by simp [Expr.EntriesWellFormed, Expr.entryUses]
  | .named _ value :: rest => by
    rw [Expr.EntriesWellFormed, Expr.entryUses, List.forall_mem_append, Expr.wellFormed_iff value,
      Expr.entriesWellFormed_iff rest]
  | .keyed key value :: rest => by
    rw [Expr.EntriesWellFormed, Expr.entryUses, List.forall_mem_append, List.forall_mem_append,
      Expr.wellFormed_iff key, Expr.wellFormed_iff value, Expr.entriesWellFormed_iff rest, and_assoc]
  | .positional value :: rest => by
    rw [Expr.EntriesWellFormed, Expr.entryUses, List.forall_mem_append, Expr.wellFormed_iff value,
      Expr.entriesWellFormed_iff rest]

end

theorem Expr.optionWellFormed_iff (e? : Option Expr) : (∀ e ∈ e?, e.WellFormed program proto) ↔
    ∀ use ∈ Expr.optionUses e?, use.Legal program proto := by
  cases e? with
  | none => simp [Expr.optionUses]
  | some e => simp [Expr.optionUses, Expr.wellFormed_iff e]

mutual

theorem Stmt.wellFormed_iff (inLoop : Bool) : ∀ s : Stmt,
    s.WellFormed program proto inLoop ↔ ∀ use ∈ s.uses inLoop, use.Legal program proto
  | .declare slot value => by
    rw [Stmt.WellFormed, Stmt.uses, List.forall_mem_cons, Expr.optionWellFormed_iff]
    rfl
  | .assign slot value => by
    rw [Stmt.WellFormed, Stmt.uses, List.forall_mem_cons, Expr.wellFormed_iff]
    rfl
  | .setUpvalue index value => by
    rw [Stmt.WellFormed, Stmt.uses, List.forall_mem_cons, Expr.wellFormed_iff]
    rfl
  | .setGlobal _ value => by rw [Stmt.WellFormed, Stmt.uses, Expr.wellFormed_iff]
  | .setIndex target key value => by
    rw [Stmt.WellFormed, Stmt.uses, List.forall_mem_append, List.forall_mem_append,
      Expr.wellFormed_iff, Expr.wellFormed_iff, Expr.wellFormed_iff, and_assoc]
  | .expr e => by rw [Stmt.WellFormed, Stmt.uses, Expr.wellFormed_iff]
  | .branch cond thenBlock elseBlock => by
    rw [Stmt.WellFormed, Stmt.uses, List.forall_mem_append, List.forall_mem_append,
      Expr.wellFormed_iff, Stmt.blockWellFormed_iff inLoop thenBlock,
      Stmt.blockWellFormed_iff inLoop elseBlock, and_assoc]
  | .whileLoop cond body => by
    rw [Stmt.WellFormed, Stmt.uses, List.forall_mem_append, Expr.wellFormed_iff,
      Stmt.blockWellFormed_iff true body]
  | .forLoop slot start limit step body => by
    rw [Stmt.WellFormed, Stmt.uses, List.forall_mem_cons, List.forall_mem_append,
      List.forall_mem_append, List.forall_mem_append, Expr.wellFormed_iff, Expr.wellFormed_iff,
      Expr.optionWellFormed_iff, Stmt.blockWellFormed_iff true body, and_assoc, and_assoc]
    rfl
  | .ret values => by rw [Stmt.WellFormed, Stmt.uses, Expr.allWellFormed_iff]
  | .breakLoop => by simp [Stmt.WellFormed, Stmt.uses, Use.Legal]

/-- A block is well formed if all its uses are legal. -/
theorem Stmt.blockWellFormed_iff (inLoop : Bool) : ∀ block : List Stmt,
    Stmt.BlockWellFormed program proto inLoop block ↔
      ∀ use ∈ Stmt.blockUses inLoop block, use.Legal program proto
  | [] => by simp [Stmt.BlockWellFormed, Stmt.blockUses]
  | s :: rest => by
    rw [Stmt.BlockWellFormed, Stmt.blockUses, List.forall_mem_append, Stmt.wellFormed_iff inLoop s,
      Stmt.blockWellFormed_iff inLoop rest]

end

end
end AdaptiveScript
