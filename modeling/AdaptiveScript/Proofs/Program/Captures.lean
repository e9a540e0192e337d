import AdaptiveScript.Proofs.Inference.Course
import AdaptiveScript.Proofs.Program.Uses
import Mathlib.Data.List.Basic

/-!
# What function literals capture

The marks of a prototype are computed by a walk over its body.  Here is what they mean, said
without the walk: an expression occurs in another if it is that expression or occurs in a part of
it (`Expr.Occurs`), and a block holds every expression that occurs in an operand of one of its
statements, however deep the statement is nested (`Stmt.Holds`).

A slot is captured in a body if a function literal that the body holds lists it
(`Stmt.CapturesSlot`), and exactly these slots are marked (`Prototype.isMarked_ofParts`).
Literals inside other prototypes do not count, since no expression has a prototype as a part.
What stands in a body is among what the body uses (`Stmt.Holds.mem_blockUses`), so it is in order
if the body can be compiled.
-/

namespace AdaptiveScript

/-- The expressions of one entry. -/
def Entry.parts : Entry → List Expr
  | .named _ value => [value]
  | .keyed key value => [key, value]
  | .positional value => [value]

namespace Expr

/-- The expressions that an expression is put together from. -/
def parts : Expr → List Expr
  | .binary _ left right => [left, right]
  | .logical _ left right => [left, right]
  | .unary _ operand => [operand]
  | .index target key => [target, key]
  | .call callee args => callee :: args
  | .table _ entries => entries.flatMap Entry.parts
  | _ => []

/-- An expression is another one, or stands somewhere inside it. -/
inductive Occurs (e : Expr) : Expr → Prop
  | self : Occurs e e
  | inPart {part whole : Expr} : part ∈ whole.parts → Occurs e part → Occurs e whole

theorem sizeOf_lt_of_mem_entry {part : Expr} {entry : Entry} (h : part ∈ entry.parts) :
    sizeOf part < sizeOf entry := by
  cases entry with
  | named name value =>
    rw [List.mem_singleton.mp h, Entry.named.sizeOf_spec]
    omega
  | keyed key value =>
    rw [Entry.keyed.sizeOf_spec]
    rcases List.mem_pair.mp h with rfl | rfl <;> omega
  | positional value =>
    rw [List.mem_singleton.mp h, Entry.positional.sizeOf_spec]
    omega

/-- Parts are smaller than what they are parts of. -/
theorem sizeOf_lt_of_mem_parts {part whole : Expr} (h : part ∈ whole.parts) :
    sizeOf part < sizeOf whole := by
  cases whole with
  | binary op left right =>
    rw [Expr.binary.sizeOf_spec]
    rcases List.mem_pair.mp h with rfl | rfl <;> omega
  | logical op left right =>
    rw [Expr.logical.sizeOf_spec]
    rcases List.mem_pair.mp h with rfl | rfl <;> omega
  | unary op operand =>
    rw [List.mem_singleton.mp h, Expr.unary.sizeOf_spec]
    omega
  | index target key =>
    rw [Expr.index.sizeOf_spec]
    rcases List.mem_pair.mp h with rfl | rfl <;> omega
  | call callee args =>
    rw [Expr.call.sizeOf_spec]
    rcases List.mem_cons.mp h with rfl | harg
    · omega
    · have hlt := List.sizeOf_lt_of_mem harg
      omega
  | table shape entries =>
    obtain ⟨entry, hentry, hpart⟩ := List.mem_flatMap.mp h
    have hlt := List.sizeOf_lt_of_mem hentry
    have hlt' := sizeOf_lt_of_mem_entry hpart
    rw [Expr.table.sizeOf_spec]
    omega
  | _ => cases h

theorem mem_listCaptures {slot : Nat} {es : List Expr} :
    slot ∈ listCaptures es ↔ ∃ e ∈ es, slot ∈ e.captures := by
  induction es with
  | nil => simp [listCaptures]
  | cons e es ih => simp [listCaptures, ih]

theorem mem_entryCaptures {slot : Nat} {entries : List Entry} :
    slot ∈ entryCaptures entries ↔ ∃ e ∈ entries.flatMap Entry.parts, slot ∈ e.captures := by
  induction entries with
  | nil => simp [entryCaptures]
  | cons entry entries ih =>
    cases entry <;> simp [entryCaptures, Entry.parts, ih, or_and_right, exists_or]

theorem mem_slots {slot : Nat} {captures : List Capture} :
    slot ∈ Capture.slots captures ↔ Capture.slot slot ∈ captures := by
  unfold Capture.slots
  rw [List.mem_filterMap]
  constructor
  · rintro ⟨capture, hmem, hslot⟩
    cases capture with
    | slot index =>
      cases hslot
      exact hmem
    | upvalue index => cases hslot
  · exact fun h => ⟨_, h, rfl⟩

/-- A slot is captured in an expression by the expression itself or in a part of it. -/
theorem mem_captures_cases {slot : Nat} {e : Expr} : slot ∈ e.captures ↔
    (∃ ref captures, e = .function ref captures ∧ Capture.slot slot ∈ captures) ∨
      ∃ part ∈ e.parts, slot ∈ part.captures := by
  cases e with
  | function ref captures =>
    constructor
    · exact fun h => .inl ⟨ref, captures, rfl, mem_slots.mp h⟩
    · rintro (⟨_, _, ⟨⟩, hslot⟩ | ⟨_, ⟨⟩, _⟩)
      exact mem_slots.mpr hslot
  | _ => simp [captures, parts, mem_listCaptures, mem_entryCaptures]

/-- The slots that are captured in an expression are those that function literals in it list. -/
theorem mem_captures_iff {slot : Nat} {e : Expr} : slot ∈ e.captures ↔
    ∃ ref captures, Occurs (.function ref captures) e ∧ Capture.slot slot ∈ captures := by
  constructor
  · intro h
    induction hsize : sizeOf e using Nat.strongRecOn generalizing e with
    | ind size ih =>
      rcases mem_captures_cases.mp h with ⟨ref, captures, rfl, hslot⟩ | ⟨part, hpart, hslot⟩
      · exact ⟨ref, captures, .self, hslot⟩
      · obtain ⟨ref, captures, hoccurs, hmem⟩ :=
          ih _ (hsize ▸ sizeOf_lt_of_mem_parts hpart) hslot rfl
        exact ⟨ref, captures, .inPart hpart hoccurs, hmem⟩
  · rintro ⟨ref, captures, hoccurs, hslot⟩
    induction hoccurs with
    | self => exact mem_captures_cases.mpr (.inl ⟨ref, captures, rfl, hslot⟩)
    | inPart hpart _ ih => exact mem_captures_cases.mpr (.inr ⟨_, hpart, ih⟩)

end Expr

namespace Stmt

/-- An expression stands somewhere in a block. -/
def Holds (block : List Stmt) (e : Expr) : Prop :=
  ∃ s ∈ blockListed block, ∃ operand ∈ s.operands, e.Occurs operand

/-- Some function literal in a block captures a slot. -/
def CapturesSlot (block : List Stmt) (slot : Nat) : Prop :=
  ∃ ref captures, Holds block (.function ref captures) ∧ Capture.slot slot ∈ captures

mutual

theorem mem_captures_iff {slot : Nat} : ∀ {s : Stmt}, slot ∈ s.captures ↔
    ∃ t ∈ s.listed, ∃ operand ∈ t.operands, slot ∈ operand.captures
  | .declare _ value => by
    cases value <;> simp [captures, listed, operands, Expr.optionCaptures]
  | .assign _ _ => by simp [captures, listed, operands]
  | .setUpvalue _ _ => by simp [captures, listed, operands]
  | .setGlobal _ _ => by simp [captures, listed, operands]
  | .setIndex _ _ _ => by simp [captures, listed, operands]
  | .expr _ => by simp [captures, listed, operands]
  | .branch _ _ _ => by
    simp [captures, listed, operands, mem_blockCaptures_listed, or_and_right, exists_or]
  | .whileLoop _ _ => by simp [captures, listed, operands, mem_blockCaptures_listed]
  | .forLoop _ _ _ step _ => by
    cases step <;>
      simp [captures, listed, operands, mem_blockCaptures_listed, Expr.optionCaptures, or_assoc]
  | .ret _ => by simp [captures, listed, operands, Expr.mem_listCaptures]
  | .breakLoop => by simp [captures, listed, operands]

theorem mem_blockCaptures_listed {slot : Nat} : ∀ {block : List Stmt},
    slot ∈ blockCaptures block ↔
      ∃ t ∈ blockListed block, ∃ operand ∈ t.operands, slot ∈ operand.captures
  | [] => by simp [blockCaptures, blockListed]
  | _ :: _ => by
    simp [blockCaptures, blockListed, mem_captures_iff, mem_blockCaptures_listed, or_and_right,
      exists_or]

end

/-- The walk over a body finds the slots that function literals in it capture. -/
theorem mem_blockCaptures_iff {slot : Nat} {block : List Stmt} :
    slot ∈ blockCaptures block ↔ CapturesSlot block slot := by
  rw [mem_blockCaptures_listed]
  constructor
  · rintro ⟨t, ht, operand, hoperand, hslot⟩
    obtain ⟨ref, captures, hoccurs, hmem⟩ := Expr.mem_captures_iff.mp hslot
    exact ⟨ref, captures, ⟨t, ht, operand, hoperand, hoccurs⟩, hmem⟩
  · rintro ⟨ref, captures, ⟨t, ht, operand, hoperand, hoccurs⟩, hmem⟩
    exact ⟨t, ht, operand, hoperand, Expr.mem_captures_iff.mpr ⟨ref, captures, hoccurs, hmem⟩⟩

end Stmt

/-! ## What a block holds it uses -/

section Uses

variable {use : Use}

theorem Expr.mem_listUses {es : List Expr} : use ∈ listUses es ↔ ∃ e ∈ es, use ∈ e.uses := by
  induction es with
  | nil => simp [listUses]
  | cons e es ih => simp [listUses, ih]

theorem Expr.mem_entryUses {entries : List Entry} :
    use ∈ entryUses entries ↔ ∃ e ∈ entries.flatMap Entry.parts, use ∈ e.uses := by
  induction entries with
  | nil => simp [entryUses]
  | cons entry entries ih =>
    cases entry <;> simp [entryUses, Entry.parts, ih, or_and_right, exists_or]

theorem Expr.mem_optionUses {e? : Option Expr} :
    use ∈ optionUses e? ↔ ∃ e ∈ e?.toList, use ∈ e.uses := by
  cases e? <;> simp [optionUses]

theorem Expr.mem_uses_of_parts {whole : Expr} (h : ∃ part ∈ whole.parts, use ∈ part.uses) :
    use ∈ whole.uses := by
  revert h
  cases whole <;> simp [parts, uses, mem_listUses, mem_entryUses]

/-- What an expression inside another uses, the whole uses as well. -/
theorem Expr.Occurs.mem_uses {e whole : Expr} (h : e.Occurs whole) (huse : use ∈ e.uses) :
    use ∈ whole.uses := by
  induction h with
  | self => exact huse
  | inPart hpart _ ih => exact mem_uses_of_parts ⟨_, hpart, ih⟩

theorem Stmt.mem_uses_of_operands (inLoop : Bool) {s : Stmt}
    (h : ∃ operand ∈ s.operands, use ∈ operand.uses) : use ∈ s.uses inLoop := by
  revert h
  cases s <;> simp [operands, uses, Expr.mem_optionUses, Expr.mem_listUses] <;> grind

mutual

/-- What an operand of a statement inside another uses, the whole uses as well. -/
theorem Stmt.mem_uses_of_listed (inLoop : Bool) {t : Stmt}
    (h : ∃ operand ∈ t.operands, use ∈ operand.uses) :
    ∀ {s : Stmt}, t ∈ s.listed → use ∈ s.uses inLoop
  | .branch cond thenBlock elseBlock => by
    rw [listed, List.mem_cons, List.mem_append]
    rintro (rfl | ht | ht)
    · exact mem_uses_of_operands inLoop h
    · simp [uses, mem_blockUses_of_listed inLoop h ht]
    · simp [uses, mem_blockUses_of_listed inLoop h ht]
  | .whileLoop cond body => by
    rw [listed, List.mem_cons]
    rintro (rfl | ht)
    · exact mem_uses_of_operands inLoop h
    · simp [uses, mem_blockUses_of_listed true h ht]
  | .forLoop slot start limit step body => by
    rw [listed, List.mem_cons]
    rintro (rfl | ht)
    · exact mem_uses_of_operands inLoop h
    · simp [uses, mem_blockUses_of_listed true h ht]
  | .declare _ _ | .assign _ _ | .setUpvalue _ _ | .setGlobal _ _ | .setIndex _ _ _ | .expr _
  | .ret _ | .breakLoop => by
    simp only [listed, List.mem_singleton]
    rintro rfl
    exact mem_uses_of_operands inLoop h

theorem Stmt.mem_blockUses_of_listed (inLoop : Bool) {t : Stmt}
    (h : ∃ operand ∈ t.operands, use ∈ operand.uses) :
    ∀ {block : List Stmt}, t ∈ blockListed block → use ∈ blockUses inLoop block
  | [] => by simp [blockListed]
  | s :: rest => by
    rw [blockListed, blockUses, List.mem_append, List.mem_append]
    exact Or.imp (mem_uses_of_listed inLoop h) (mem_blockUses_of_listed inLoop h)

end

/-- What an expression in a block uses, the block uses as well. -/
theorem Stmt.Holds.mem_blockUses {block : List Stmt} {e : Expr} (h : Holds block e)
    (huse : use ∈ e.uses) (inLoop : Bool) : use ∈ blockUses inLoop block := by
  obtain ⟨t, ht, operand, hoperand, hoccurs⟩ := h
  exact mem_blockUses_of_listed inLoop ⟨operand, hoperand, hoccurs.mem_uses huse⟩ ht

/-- A local that a block captures is one that it uses. -/
theorem Stmt.CapturesSlot.mem_blockUses {block : List Stmt} {slot : Nat}
    (h : CapturesSlot block slot) (inLoop : Bool) : Use.slot slot ∈ blockUses inLoop block := by
  obtain ⟨ref, captures, hholds, hslot⟩ := h
  refine hholds.mem_blockUses ?_ inLoop
  rw [Expr.uses]
  exact List.mem_cons_of_mem _ (List.mem_map.mpr ⟨_, hslot, rfl⟩)

end Uses

namespace Prototype

/-- The locals that are marked are those that the body captures. -/
def IsMarked (proto : Prototype) : Prop :=
  ∀ {slot : Nat} {decl : LocalDecl}, proto.locals[slot]? = some decl →
    (decl.captured = true ↔ Stmt.CapturesSlot proto.body slot)

theorem isMarked_ofParts (ref : PrototypeRef) (params locals : List String)
    (upvalues : List UpvalueTemplate) (body : List Stmt) :
    (ofParts ref params locals upvalues body).IsMarked := by
  intro slot decl hdecl
  unfold ofParts at hdecl
  rw [List.getElem?_toArray, List.getElem?_map, Option.map_eq_some_iff] at hdecl
  obtain ⟨⟨name, index⟩, hat, rfl⟩ := hdecl
  rw [List.getElem?_zipIdx, Option.map_eq_some_iff] at hat
  obtain ⟨_, -, heq⟩ := hat
  obtain rfl : slot = index := by simpa using congrArg Prod.snd heq
  show (Stmt.blockCaptures body).contains slot = true ↔ _
  rw [List.contains_iff_mem]
  exact Stmt.mem_blockCaptures_iff

end Prototype
end AdaptiveScript
