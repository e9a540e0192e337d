import AdaptiveScript.Program
import AdaptiveScript.Proofs.Shape.Forest

/-!
# What a program mentions

The body of a prototype mentions shapes, one for each of its table constructors, and
prototypes, one for each of its function literals.  What is mentioned has to exist; this is
how programs are made, and `Program.Scoped` says so.  It stays true when shapes are added
and when prototypes are added.

`Stmt.Every` carries a property of single statements to all statements inside a block.
-/

namespace AdaptiveScript

/-- The shape that a type names exists. -/
def Ty.Has (shapes : Shapes) : Ty → Prop
  | .tableOf shape => shapes.Has shape
  | _ => True

theorem Ty.Has.mono {before after : Shapes} (hg : before.Grows after) {type : Ty}
    (h : type.Has before) : type.Has after := by
  cases type with
  | tableOf shape => exact hg.has h
  | _ => trivial

/-- One program has all prototypes of another, and maybe more after them. -/
def Program.Extends (before after : Program) : Prop :=
  ∀ (index : Nat) (proto : Prototype), before.prototypes[index]? = some proto →
    after.prototypes[index]? = some proto

theorem Program.Extends.prototype? {before after : Program} (h : before.Extends after)
    {ref : PrototypeRef} {proto : Prototype} (hproto : before.prototype? ref = some proto) :
    after.prototype? ref = some proto := by
  unfold Program.prototype? at hproto ⊢
  split at hproto
  · cases hproto
  · exact h _ _ hproto

/-- Something that code refers to by number. -/
inductive Mention where
  | shape (id : ShapeId)
  | prototype (ref : PrototypeRef)

/-- What is mentioned exists. -/
def Mention.Exists (program : Program) (shapes : Shapes) : Mention → Prop
  | .shape id => shapes.Has id
  | .prototype ref => ∃ proto, program.prototype? ref = some proto

theorem Mention.Exists.mono {program : Program} {before after : Shapes} (hg : before.Grows after)
    {x : Mention} (h : x.Exists program before) : x.Exists program after := by
  cases x with
  | shape id => exact hg.has h
  | prototype ref => exact h

theorem Mention.Exists.extend {before after : Program} (hp : before.Extends after)
    {shapes : Shapes} {x : Mention} (h : x.Exists before shapes) : x.Exists after shapes := by
  cases x with
  | shape id => exact h
  | prototype ref =>
    obtain ⟨proto, hproto⟩ := h
    exact ⟨proto, hp.prototype? hproto⟩

mutual

/-- What an expression mentions. -/
def Expr.mentions : Expr → List Mention
  | .literal _ => []
  | .slot _ => []
  | .upvalue _ => []
  | .global _ => []
  | .binary _ left right => left.mentions ++ right.mentions
  | .logical _ left right => left.mentions ++ right.mentions
  | .unary _ operand => operand.mentions
  | .index target key => target.mentions ++ key.mentions
  | .call callee args => callee.mentions ++ Expr.listMentions args
  | .function ref _ => [.prototype ref]
  | .table shape entries => .shape shape :: Expr.entryMentions entries

/-- What some expressions mention. -/
def Expr.listMentions : List Expr → List Mention
  | [] => []
  | e :: es => e.mentions ++ Expr.listMentions es

/-- What the entries of a table constructor mention. -/
def Expr.entryMentions : List Entry → List Mention
  | [] => []
  | .named _ value :: rest => value.mentions ++ Expr.entryMentions rest
  | .keyed key value :: rest => key.mentions ++ value.mentions ++ Expr.entryMentions rest
  | .positional value :: rest => value.mentions ++ Expr.entryMentions rest

end

mutual

/-- A property of a statement and of all statements inside it. -/
def Stmt.Every (P : Stmt → Prop) : Stmt → Prop
  | .branch cond thenBlock elseBlock =>
    P (.branch cond thenBlock elseBlock) ∧ Stmt.BlockEvery P thenBlock ∧
      Stmt.BlockEvery P elseBlock
  | .whileLoop cond body => P (.whileLoop cond body) ∧ Stmt.BlockEvery P body
  | .forLoop slot start limit step body =>
    P (.forLoop slot start limit step body) ∧ Stmt.BlockEvery P body
  | s => P s

/-- A property of all statements of a block and of all statements inside them. -/
def Stmt.BlockEvery (P : Stmt → Prop) : List Stmt → Prop
  | [] => True
  | s :: rest => s.Every P ∧ Stmt.BlockEvery P rest

end

mutual

theorem Stmt.Every.imp₂ {P Q R : Stmt → Prop} (h : ∀ s, P s → Q s → R s) :
    ∀ {s : Stmt}, s.Every P → s.Every Q → s.Every R
  | .branch _ _ _, ⟨hs, ht, he⟩, ⟨hs', ht', he'⟩ =>
    ⟨h _ hs hs', Stmt.BlockEvery.imp₂ h ht ht', Stmt.BlockEvery.imp₂ h he he'⟩
  | .whileLoop _ _, ⟨hs, hb⟩, ⟨hs', hb'⟩ => ⟨h _ hs hs', Stmt.BlockEvery.imp₂ h hb hb'⟩
  | .forLoop _ _ _ _ _, ⟨hs, hb⟩, ⟨hs', hb'⟩ => ⟨h _ hs hs', Stmt.BlockEvery.imp₂ h hb hb'⟩
  | .declare _ _, hs, hs' => h _ hs hs'
  | .assign _ _, hs, hs' => h _ hs hs'
  | .setUpvalue _ _, hs, hs' => h _ hs hs'
  | .setGlobal _ _, hs, hs' => h _ hs hs'
  | .setIndex _ _ _, hs, hs' => h _ hs hs'
  | .expr _, hs, hs' => h _ hs hs'
  | .ret _, hs, hs' => h _ hs hs'
  | .breakLoop, hs, hs' => h _ hs hs'

/-- What follows of every statement from two properties. -/
theorem Stmt.BlockEvery.imp₂ {P Q R : Stmt → Prop} (h : ∀ s, P s → Q s → R s) :
    ∀ {block : List Stmt}, Stmt.BlockEvery P block → Stmt.BlockEvery Q block →
      Stmt.BlockEvery R block
  | [], _, _ => trivial
  | _ :: _, ⟨hs, hrest⟩, ⟨hs', hrest'⟩ =>
    ⟨Stmt.Every.imp₂ h hs hs', Stmt.BlockEvery.imp₂ h hrest hrest'⟩

end

theorem Stmt.Every.mono {P Q : Stmt → Prop} (h : ∀ s, P s → Q s) {s : Stmt} (hs : s.Every P) :
    s.Every Q :=
  .imp₂ (fun s hs _ => h s hs) hs hs

theorem Stmt.BlockEvery.mono {P Q : Stmt → Prop} (h : ∀ s, P s → Q s) {block : List Stmt}
    (hblock : Stmt.BlockEvery P block) : Stmt.BlockEvery Q block :=
  .imp₂ (fun s hs _ => h s hs) hblock hblock

/-- The expressions that a statement holds itself, apart from those in its blocks. -/
def Stmt.operands : Stmt → List Expr
  | .declare _ value => value.toList
  | .assign _ value => [value]
  | .setUpvalue _ value => [value]
  | .setGlobal _ value => [value]
  | .setIndex target key value => [target, key, value]
  | .expr e => [e]
  | .branch cond _ _ => [cond]
  | .whileLoop cond _ => [cond]
  | .forLoop _ start limit step _ => start :: limit :: step.toList
  | .ret values => values
  | .breakLoop => []

/-- What an expression mentions exists. -/
def Expr.Scoped (program : Program) (shapes : Shapes) (e : Expr) : Prop :=
  ∀ x ∈ e.mentions, x.Exists program shapes

/-- What some expressions mention exists. -/
def Expr.AllScoped (program : Program) (shapes : Shapes) (es : List Expr) : Prop :=
  ∀ x ∈ Expr.listMentions es, x.Exists program shapes

/-- What some entries mention exists. -/
def Expr.EntriesScoped (program : Program) (shapes : Shapes) (entries : List Entry) : Prop :=
  ∀ x ∈ Expr.entryMentions entries, x.Exists program shapes

/-- What the operands of a statement mention exists. -/
def Stmt.Scoped (program : Program) (shapes : Shapes) (s : Stmt) : Prop :=
  ∀ e ∈ s.operands, e.Scoped program shapes

section

variable {program : Program} {before after : Shapes} (hg : before.Grows after)

include hg

theorem Expr.Scoped.mono {e : Expr} (h : e.Scoped program before) : e.Scoped program after :=
  fun x hx => (h x hx).mono hg

theorem Expr.AllScoped.mono {es : List Expr} (h : Expr.AllScoped program before es) :
    Expr.AllScoped program after es :=
  fun x hx => (h x hx).mono hg

theorem Expr.EntriesScoped.mono {entries : List Entry}
    (h : Expr.EntriesScoped program before entries) : Expr.EntriesScoped program after entries :=
  fun x hx => (h x hx).mono hg

theorem Stmt.Scoped.mono {s : Stmt} (h : s.Scoped program before) : s.Scoped program after :=
  fun e he => (h e he).mono hg

end

section

variable {program : Program} {shapes : Shapes} {e left right : Expr} {es : List Expr} {rest : List Entry}

attribute [local simp] Expr.mentions Expr.listMentions Expr.entryMentions

theorem Expr.scoped_binary {op : BinOp} :
    (Expr.binary op left right).Scoped program shapes ↔ left.Scoped program shapes ∧ right.Scoped program shapes := by
  simp [Scoped, or_imp, forall_and]

theorem Expr.scoped_logical {op : LogicalOp} :
    (Expr.logical op left right).Scoped program shapes ↔ left.Scoped program shapes ∧ right.Scoped program shapes := by
  simp [Scoped, or_imp, forall_and]

theorem Expr.scoped_unary {op : UnOp} : (Expr.unary op e).Scoped program shapes ↔ e.Scoped program shapes := by
  simp [Scoped]

theorem Expr.scoped_index :
    (Expr.index left right).Scoped program shapes ↔ left.Scoped program shapes ∧ right.Scoped program shapes := by
  simp [Scoped, or_imp, forall_and]

theorem Expr.scoped_call :
    (Expr.call e es).Scoped program shapes ↔ e.Scoped program shapes ∧ Expr.AllScoped program shapes es := by
  simp [Scoped, AllScoped, or_imp, forall_and]

theorem Expr.scoped_function {ref : PrototypeRef} {captures : List Capture} :
    (Expr.function ref captures).Scoped program shapes ↔
      ∃ proto, program.prototype? ref = some proto := by
  simp [Scoped, Mention.Exists]

theorem Expr.scoped_table {shape : ShapeId} :
    (Expr.table shape rest).Scoped program shapes ↔ shapes.Has shape ∧ Expr.EntriesScoped program shapes rest := by
  simp [Scoped, EntriesScoped, Mention.Exists]

theorem Expr.allScoped_cons :
    Expr.AllScoped program shapes (e :: es) ↔ e.Scoped program shapes ∧ Expr.AllScoped program shapes es := by
  simp [Scoped, AllScoped, or_imp, forall_and]

theorem Expr.entriesScoped_named {name : String} :
    Expr.EntriesScoped program shapes (.named name e :: rest) ↔
      e.Scoped program shapes ∧ Expr.EntriesScoped program shapes rest := by
  simp [Scoped, EntriesScoped, or_imp, forall_and]

theorem Expr.entriesScoped_keyed :
    Expr.EntriesScoped program shapes (.keyed left right :: rest) ↔
      left.Scoped program shapes ∧ right.Scoped program shapes ∧ Expr.EntriesScoped program shapes rest := by
  simp [Scoped, EntriesScoped, or_imp, forall_and]

theorem Expr.entriesScoped_positional :
    Expr.EntriesScoped program shapes (.positional e :: rest) ↔
      e.Scoped program shapes ∧ Expr.EntriesScoped program shapes rest := by
  simp [Scoped, EntriesScoped, or_imp, forall_and]

theorem Expr.allScoped_of_forall (h : ∀ e ∈ es, e.Scoped program shapes) : Expr.AllScoped program shapes es := by
  induction es with
  | nil => exact fun x hx => by cases hx
  | cons e es ih =>
    exact Expr.allScoped_cons.2 ⟨h e (List.mem_cons_self ..),
      ih fun other hother => h other (List.mem_cons_of_mem _ hother)⟩

end

/-- References stand for prototypes by their number alone. -/
theorem Program.prototype?_eq {program : Program} {ref : PrototypeRef} {index : Nat}
    (h : ref.id = index + 1) : program.prototype? ref = program.prototypes[index]? := by
  simp [Program.prototype?, h]

theorem Program.exists_index {program : Program} {ref : PrototypeRef} {proto : Prototype}
    (h : program.prototype? ref = some proto) :
    ∃ index, ref.id = index + 1 ∧ program.prototypes[index]? = some proto := by
  cases hid : ref.id with
  | zero => simp [Program.prototype?, hid] at h
  | succ index => exact ⟨index, rfl, by rw [← Program.prototype?_eq hid, h]⟩

/-- The prototypes are numbered in order, and what their bodies and declared types mention
exists. -/
structure Program.Scoped (program : Program) (shapes : Shapes) : Prop where
  id_eq : ∀ {index : Nat} {proto : Prototype}, program.prototypes[index]? = some proto →
    proto.ref.id = index + 1
  body : ∀ {index : Nat} {proto : Prototype}, program.prototypes[index]? = some proto →
    Stmt.BlockEvery (Stmt.Scoped program shapes) proto.body
  upvalues : ∀ {index : Nat} {proto : Prototype}, program.prototypes[index]? = some proto →
    ∀ type ∈ proto.staticUpvalueTypes, type.Has shapes

theorem Program.Scoped.id_eq_of_prototype? {program : Program} {shapes : Shapes}
    (h : program.Scoped shapes) {ref : PrototypeRef} {proto : Prototype}
    (hproto : program.prototype? ref = some proto) : proto.ref.id = ref.id := by
  obtain ⟨index, hindex, hat⟩ := Program.exists_index hproto
  rw [h.id_eq hat, hindex]

theorem Program.Scoped.mono {program : Program} {before after : Shapes} (hg : before.Grows after)
    (h : program.Scoped before) : program.Scoped after where
  id_eq := h.id_eq
  body hproto := (h.body hproto).mono fun _ hs => hs.mono hg
  upvalues hproto type htype := (h.upvalues hproto type htype).mono hg

theorem Program.scoped_empty (shapes : Shapes) : Program.Scoped ⟨#[]⟩ shapes :=
  ⟨by simp, by simp, by simp⟩

theorem Program.extends_push (program : Program) (proto : Prototype) :
    program.Extends ⟨program.prototypes.push proto⟩ := by
  intro index other hother
  have hlt : index < program.prototypes.size := (Array.getElem?_eq_some_iff.mp hother).1
  rw [Array.getElem?_push, if_neg (Nat.ne_of_lt hlt), hother]

/-- What is mentioned exists in longer programs too. -/
theorem Stmt.BlockEvery.extend {before after : Program} (hp : before.Extends after)
    {shapes : Shapes} {block : List Stmt}
    (h : Stmt.BlockEvery (Stmt.Scoped before shapes) block) :
    Stmt.BlockEvery (Stmt.Scoped after shapes) block :=
  h.mono fun _ hs e he x hx => (hs e he x hx).extend hp

/-- A prototype whose body and declared types mention what exists may be added. -/
theorem Program.Scoped.push {program : Program} {shapes : Shapes} (h : program.Scoped shapes)
    {proto : Prototype} (hid : proto.ref.id = program.prototypes.size + 1)
    (hbody : Stmt.BlockEvery (Stmt.Scoped program shapes) proto.body)
    (htypes : ∀ type ∈ proto.staticUpvalueTypes, type.Has shapes) :
    Program.Scoped ⟨program.prototypes.push proto⟩ shapes := by
  have hextends := program.extends_push proto
  have hcases {index : Nat} {other : Prototype}
      (hother : (program.prototypes.push proto)[index]? = some other) :
      program.prototypes[index]? = some other ∨
        index = program.prototypes.size ∧ other = proto := by
    rw [Array.getElem?_push] at hother
    split at hother
    · next heq =>
      cases hother
      exact .inr ⟨heq, rfl⟩
    · exact .inl hother
  refine ⟨fun hother => ?_, fun hother => ?_, fun hother => ?_⟩
  · rcases hcases hother with hold | ⟨rfl, rfl⟩
    · exact h.id_eq hold
    · exact hid
  · rcases hcases hother with hold | ⟨rfl, rfl⟩
    · exact (h.body hold).extend hextends
    · exact hbody.extend hextends
  · rcases hcases hother with hold | ⟨rfl, rfl⟩
    · exact h.upvalues hold
    · exact htypes

end AdaptiveScript
