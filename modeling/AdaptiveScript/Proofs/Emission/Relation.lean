import AdaptiveScript.Proofs.Code.Boxed
import AdaptiveScript.Proofs.Inference.TypeSystem
import AdaptiveScript.Proofs.Program.WellFormed

/-!
# Which code belongs to which source

`Emits` relates an expression to code that may stand for it, and `EmitsBlock` a block to
its code.  The rules say about each node what a run has to know: that slots and upvalues
are in range, that a field access goes through a layout in which the key has that slot,
that a call goes through a site made for the types of its arguments.

The rules do not say how code is found.  They are judged in a `Setting`, which is what the
code refers to by number: the program, the shapes and return types, the call sites, and
the constants of the routine.

## Time

A setting only grows (`Setting.Grows`), and code that belongs to its source in one setting
does so in every later one (`Emits.mono`, `EmitsBlock.mono`).  So code keeps its meaning
while other code is compiled.
-/

namespace AdaptiveScript

/-! ## Layouts -/

/-- A layout is the one that its shape was compiled to. -/
structure Layout.Compiled (shapes : Shapes) (l : Layout) : Prop where
  frozen : (shapes.state l.shape).frozen = true
  layout_eq : shapes.layout l.shape = l

theorem Layout.Compiled.mono {before after : Shapes} (hg : before.Grows after)
    (hb : before.Forest) (ha : after.Forest) {l : Layout} (h : l.Compiled before) :
    l.Compiled after where
  frozen := hg.frozen_of_frozen h.frozen
  layout_eq := by
    rw [hg.layout_eq hb ha (Shapes.isFrozen_of_frozen hb h.frozen), h.layout_eq]

theorem Layout.Compiled.has {shapes : Shapes} {l : Layout} (h : l.Compiled shapes) :
    shapes.Has l.shape :=
  Shapes.has_of_frozen h.frozen

/-- The layout of a frozen shape is compiled. -/
theorem Layout.compiled_layout {shapes : Shapes} (hf : shapes.Forest) {shape : ShapeId}
    (h : shapes.isFrozen shape = true) : (shapes.layout shape).Compiled shapes where
  frozen := h
  layout_eq := by
    simp only [Shapes.layout, Shapes.keys, Shapes.spills, Shapes.representative,
      hf.resolve_resolve]

/-- A field is a slot of a key in a compiled layout. -/
def Field.In (f : Field) (l : Layout) : Prop :=
  l.shape = f.shape ∧ l.slotOf? f.key = some f.slot

/-! ## Call sites -/

namespace Linking.Sites

/-- A site exists and was made for arguments of some types, to keep one result or all. -/
structure Has (sites : Sites) (id : Nat) (static : List Ty) (truncate : Bool) : Prop where
  pos : 0 < id
  le : id ≤ sites.sites.size
  static_eq : (sites.get id).static = static
  truncate_eq : (sites.get id).truncate = truncate

/-- What a site was made for never changes. -/
def Grows (before after : Sites) : Prop :=
  ∀ {id : Nat} {static : List Ty} {truncate : Bool}, before.Has id static truncate →
    after.Has id static truncate

end Linking.Sites

/-! ## Settings -/

/-- What the code of a function refers to. -/
structure Setting where
  /-- The program. -/
  program : Program
  /-- The shapes and return types. -/
  knowledge : Knowledge
  /-- The call sites. -/
  sites : Linking.Sites
  /-- The constants of the code. -/
  constants : Array Value
  /-- The function. -/
  proto : Prototype
  /-- The types of its locals and upvalues. -/
  typing : Typing

namespace Setting

/-- The shapes. -/
def shapes (σ : Setting) : Shapes :=
  σ.knowledge.shapes

/-- The same function in a setting in which there is more to refer to. -/
structure Grows (before after : Setting) : Prop where
  program : before.program.Extends after.program
  knowledge : before.knowledge.Grows after.knowledge
  forest : before.shapes.Forest
  forest_after : after.shapes.Forest
  sites : before.sites.Grows after.sites
  constants : ∀ {index : Nat} {v : Value}, before.constants[index]? = some v →
    after.constants[index]? = some v
  proto : after.proto = before.proto
  typing : after.typing = before.typing

end Setting

/-! ## Expressions -/

mutual

/-- Code of an expression. -/
inductive Emits (σ : Setting) : Expr → Emitted → Prop
  | nil : Emits σ (.literal .nil) ⟨.nil, .value, .nil⟩
  | bool (b : Bool) : Emits σ (.literal (.bool b)) ⟨.boolean, .bool, .bool b⟩
  | int (n : Int64) : Emits σ (.literal (.int n)) ⟨.integer, .int, .int n⟩
  | float (x : Float) : Emits σ (.literal (.float x)) ⟨.float, .float, .float x⟩
  | str {s : String} {index : Nat} : σ.constants[index]? = some (.str s) →
    Emits σ (.literal (.str s)) ⟨.string, .value, .constant index⟩
  | slot {index : Nat} : index < σ.proto.localCount →
    Emits σ (.slot index) (.narrow (σ.typing.slot index) (.slot index))
  | upvalue {index : Nat} : index < σ.proto.upvalues.size →
    Emits σ (.upvalue index) (.narrow (σ.typing.upvalue index) (.upvalue index))
  | global (name : String) : Emits σ (.global name) ⟨.unknown, .value, .global name⟩
  | binary {op : BinOp} {left right : Expr} {l r : Emitted} : Emits σ left l → Emits σ right r →
    Emits σ (.binary op left right) (.binary op l r)
  | logical {op : LogicalOp} {left right : Expr} {l r : Emitted} : Emits σ left l →
    Emits σ right r → Emits σ (.logical op left right) (.logical op l r)
  | unary {op : UnOp} {operand : Expr} {c : Emitted} : Emits σ operand c →
    Emits σ (.unary op operand) (.unary op c)
  | field {target key : Expr} {t : Emitted} {f : Field} {l : Layout} : Emits σ target t →
    key.constantKey? = some f.key → l.Compiled σ.shapes → f.In l →
    Emits σ (.index target key) ⟨.unknown, .value, .field f t.boxed⟩
  | index {target key : Expr} {t k : Emitted} : Emits σ target t → Emits σ key k →
    Emits σ (.index target key) ⟨.unknown, .value, .index t.boxed k.boxed⟩
  | call {callee : Expr} {args : List Expr} {c : Emitted} {cs : List Emitted} {id : SiteId}
    {type : Ty} : Emits σ callee c → EmitsAll σ args cs →
    σ.sites.Has id (cs.map Emitted.type) true →
    HasType σ.knowledge σ.typing (.call callee args) type → type.Has σ.shapes →
    Emits σ (.call callee args)
      (.narrow type (.first (.mk id c.boxed (cs.map Emitted.boxed))))
  | function {ref : PrototypeRef} {captures : List Capture} {proto : Prototype} :
    σ.program.prototype? ref = some proto → captures.length = proto.upvalues.size →
    (∀ c ∈ captures, c.InRange σ.proto) →
    Emits σ (.function ref captures) ⟨.function ref, .value, .function ref captures⟩
  | table {shape : ShapeId} {entries : List Entry} {l : Layout} {inits : List Init} :
    l.Compiled σ.shapes → σ.shapes.resolve shape = l.shape → EmitsInits σ l entries inits →
    Emits σ (.table shape entries) ⟨.tableOf l.shape, .value, .table l inits⟩

/-- Code of some expressions. -/
inductive EmitsAll (σ : Setting) : List Expr → List Emitted → Prop
  | nil : EmitsAll σ [] []
  | cons {e : Expr} {es : List Expr} {c : Emitted} {cs : List Emitted} : Emits σ e c →
    EmitsAll σ es cs → EmitsAll σ (e :: es) (c :: cs)

/-- Code of the entries of a table constructor. -/
inductive EmitsInits (σ : Setting) : Layout → List Entry → List Init → Prop
  | nil {l : Layout} : EmitsInits σ l [] []
  | named {l : Layout} {name : String} {value : Expr} {rest : List Entry} {v : Emitted}
    {is : List Init} : Emits σ value v → EmitsInits σ l rest is →
    EmitsInits σ l (.named name value :: rest) (Emit.namedInit l name v :: is)
  | constant {l : Layout} {name : String} {key value : Expr} {rest : List Entry} {v : Emitted}
    {is : List Init} : key.constantKey? = some name → Emits σ value v → EmitsInits σ l rest is →
    EmitsInits σ l (.keyed key value :: rest) (Emit.namedInit l name v :: is)
  | keyed {l : Layout} {key value : Expr} {rest : List Entry} {k v : Emitted} {is : List Init} :
    Emits σ key k → Emits σ value v → EmitsInits σ l rest is →
    EmitsInits σ l (.keyed key value :: rest) (.keyed k.boxed v.boxed :: is)
  | positional {l : Layout} {value : Expr} {rest : List Entry} {v : Emitted} {is : List Init} :
    Emits σ value v → EmitsInits σ l rest is →
    EmitsInits σ l (.positional value :: rest) (.positional v.boxed :: is)

end

/-! ## Statements -/

/-- Code of the step of a numeric loop. -/
inductive EmitsStep (σ : Setting) : Option Expr → Emitted → Prop
  | none : EmitsStep σ none ⟨.integer, .int, .int 1⟩
  | some {e : Expr} {c : Emitted} : Emits σ e c → EmitsStep σ (some e) c

mutual

/-- Code of a statement; `inLoop` tells whether a loop of the function encloses it. -/
inductive EmitsStmt (σ : Setting) : Bool → Stmt → Step → Prop
  | declare {inLoop : Bool} {slot : Nat} {e : Expr} {c : Emitted} : slot < σ.proto.localCount →
    Emits σ e c → EmitsStmt σ inLoop (.declare slot (some e)) (.declare slot c.boxed)
  | declareNil {inLoop : Bool} {slot : Nat} : slot < σ.proto.localCount →
    EmitsStmt σ inLoop (.declare slot none) (.declare slot .nil)
  | assign {inLoop : Bool} {slot : Nat} {e : Expr} {c : Emitted} : slot < σ.proto.localCount →
    Emits σ e c → EmitsStmt σ inLoop (.assign slot e) (.assign slot c.boxed)
  | setUpvalue {inLoop : Bool} {index : Nat} {e : Expr} {c : Emitted} :
    index < σ.proto.upvalues.size → Emits σ e c →
    EmitsStmt σ inLoop (.setUpvalue index e) (.setUpvalue index c.boxed)
  | setGlobal {inLoop : Bool} {name : String} {e : Expr} {c : Emitted} : Emits σ e c →
    EmitsStmt σ inLoop (.setGlobal name e) (.setGlobal name c.boxed)
  | setField {inLoop : Bool} {target key value : Expr} {t v : Emitted} {f : Field} {l : Layout} :
    Emits σ target t → key.constantKey? = some f.key → l.Compiled σ.shapes → f.In l →
    Emits σ value v →
    EmitsStmt σ inLoop (.setIndex target key value) (.setField f t.boxed v.boxed)
  | setIndex {inLoop : Bool} {target key value : Expr} {t k v : Emitted} : Emits σ target t →
    Emits σ key k → Emits σ value v →
    EmitsStmt σ inLoop (.setIndex target key value) (.setIndex t.boxed k.boxed v.boxed)
  | call {inLoop : Bool} {callee : Expr} {args : List Expr} {c : Emitted} {cs : List Emitted}
    {id : SiteId} : Emits σ callee c → EmitsAll σ args cs →
    σ.sites.Has id (cs.map Emitted.type) true →
    EmitsStmt σ inLoop (.expr (.call callee args))
      (.call (.mk id c.boxed (cs.map Emitted.boxed)))
  | discard {inLoop : Bool} {e : Expr} {c : Emitted} : Emits σ e c →
    EmitsStmt σ inLoop (.expr e) (.discard c.boxed)
  | branch {inLoop : Bool} {cond : Expr} {thenBlock elseBlock : List Stmt} {c : Emitted}
    {ts es : List Step} : Emits σ cond c → EmitsBlock σ inLoop thenBlock ts →
    EmitsBlock σ inLoop elseBlock es →
    EmitsStmt σ inLoop (.branch cond thenBlock elseBlock) (.branch c.toTruth ts es)
  | whileLoop {inLoop : Bool} {cond : Expr} {body : List Stmt} {c : Emitted} {bs : List Step} :
    Emits σ cond c → EmitsBlock σ true body bs →
    EmitsStmt σ inLoop (.whileLoop cond body) (.whileLoop c.toTruth bs)
  | forLoop {inLoop : Bool} {slot : Nat} {start limit : Expr} {step : Option Expr}
    {body : List Stmt} {s l d : Emitted} {bs : List Step} : slot < σ.proto.localCount →
    Emits σ start s → Emits σ limit l → EmitsStep σ step d → EmitsBlock σ true body bs →
    EmitsStmt σ inLoop (.forLoop slot start limit step body)
      (.forLoop slot (Emit.range s l d) bs)
  | retCall {inLoop : Bool} {callee : Expr} {args : List Expr} {c : Emitted} {cs : List Emitted}
    {id : SiteId} : Emits σ callee c → EmitsAll σ args cs →
    σ.sites.Has id (cs.map Emitted.type) false →
    EmitsStmt σ inLoop (.ret [.call callee args])
      (.retCall (.mk id c.boxed (cs.map Emitted.boxed)))
  | ret {inLoop : Bool} {values : List Expr} {cs : List Emitted} :
    (∀ callee args, values ≠ [.call callee args]) → EmitsAll σ values cs →
    EmitsStmt σ inLoop (.ret values) (.ret (cs.map Emitted.boxed))
  | breakLoop : EmitsStmt σ true .breakLoop .breakLoop

/-- Code of the statements of a block. -/
inductive EmitsBlock (σ : Setting) : Bool → List Stmt → List Step → Prop
  | nil {inLoop : Bool} : EmitsBlock σ inLoop [] []
  | cons {inLoop : Bool} {s : Stmt} {rest : List Stmt} {c : Step} {cs : List Step} :
    EmitsStmt σ inLoop s c → EmitsBlock σ inLoop rest cs →
    EmitsBlock σ inLoop (s :: rest) (c :: cs)

end

/-! ## Code in a later setting -/

section

variable {before after : Setting}

theorem Setting.Grows.shapes (hg : before.Grows after) : before.shapes.Grows after.shapes :=
  hg.knowledge.shapes

theorem Setting.Grows.compiled (hg : before.Grows after) {l : Layout} (h : l.Compiled before.shapes) :
    l.Compiled after.shapes :=
  h.mono hg.shapes hg.forest hg.forest_after

mutual

theorem Emits.mono (hg : before.Grows after) : ∀ {e : Expr} {c : Emitted}, Emits before e c → Emits after e c
  | _, _, .nil => .nil
  | _, _, .bool b => .bool b
  | _, _, .int n => .int n
  | _, _, .float x => .float x
  | _, _, .str h => .str (hg.constants h)
  | _, _, .slot h => by
    rw [← hg.typing]
    exact .slot (by rwa [hg.proto])
  | _, _, .upvalue h => by
    rw [← hg.typing]
    exact .upvalue (by rwa [hg.proto])
  | _, _, .global name => .global name
  | _, _, .binary hl hr => .binary (Emits.mono hg hl) (Emits.mono hg hr)
  | _, _, .logical hl hr => .logical (Emits.mono hg hl) (Emits.mono hg hr)
  | _, _, .unary h => .unary (Emits.mono hg h)
  | _, _, .field ht hkey hl hf => .field (Emits.mono hg ht) hkey (hg.compiled hl) hf
  | _, _, .index ht hk => .index (Emits.mono hg ht) (Emits.mono hg hk)
  | _, _, .call hc hcs hsite htype hhas => by
    refine .call (Emits.mono hg hc) (EmitsAll.mono hg hcs) (hg.sites hsite) ?_
      (hhas.mono hg.shapes)
    rw [hg.typing]
    exact htype.mono hg.knowledge hg.forest hg.forest_after
  | _, _, .function hproto hlength hcaptures =>
    .function (hg.program.prototype? hproto) hlength (by rwa [hg.proto])
  | _, _, .table hl hresolve his => by
    refine .table (hg.compiled hl) ?_ (EmitsInits.mono hg his)
    rw [← hg.shapes.resolve_resolve hg.forest hg.forest_after, hresolve]
    exact hg.forest_after.resolve_of_frozen (hg.compiled hl).frozen

theorem EmitsAll.mono (hg : before.Grows after) : ∀ {es : List Expr} {cs : List Emitted}, EmitsAll before es cs →
    EmitsAll after es cs
  | _, _, .nil => .nil
  | _, _, .cons h hs => .cons (Emits.mono hg h) (EmitsAll.mono hg hs)

theorem EmitsInits.mono (hg : before.Grows after) : ∀ {l : Layout} {entries : List Entry} {is : List Init},
    EmitsInits before l entries is → EmitsInits after l entries is
  | _, _, _, .nil => .nil
  | _, _, _, .named hv his => .named (Emits.mono hg hv) (EmitsInits.mono hg his)
  | _, _, _, .constant hkey hv his => .constant hkey (Emits.mono hg hv) (EmitsInits.mono hg his)
  | _, _, _, .keyed hk hv his => .keyed (Emits.mono hg hk) (Emits.mono hg hv) (EmitsInits.mono hg his)
  | _, _, _, .positional hv his => .positional (Emits.mono hg hv) (EmitsInits.mono hg his)

end

theorem EmitsStep.mono (hg : before.Grows after) {step : Option Expr} {c : Emitted}
    (h : EmitsStep before step c) : EmitsStep after step c := by
  cases h with
  | none => exact .none
  | some he => exact .some (he.mono hg)

mutual

theorem EmitsStmt.mono (hg : before.Grows after) : ∀ {inLoop : Bool} {s : Stmt} {c : Step},
    EmitsStmt before inLoop s c → EmitsStmt after inLoop s c
  | _, _, _, .declare hslot he => .declare (by rwa [hg.proto]) (he.mono hg)
  | _, _, _, .declareNil hslot => .declareNil (by rwa [hg.proto])
  | _, _, _, .assign hslot he => .assign (by rwa [hg.proto]) (he.mono hg)
  | _, _, _, .setUpvalue hindex he => .setUpvalue (by rwa [hg.proto]) (he.mono hg)
  | _, _, _, .setGlobal he => .setGlobal (he.mono hg)
  | _, _, _, .setField ht hkey hl hf hv =>
    .setField (ht.mono hg) hkey (hg.compiled hl) hf (hv.mono hg)
  | _, _, _, .setIndex ht hk hv => .setIndex (ht.mono hg) (hk.mono hg) (hv.mono hg)
  | _, _, _, .call hc hcs hsite => .call (hc.mono hg) (hcs.mono hg) (hg.sites hsite)
  | _, _, _, .discard he => .discard (he.mono hg)
  | _, _, _, .branch hc ht he =>
    .branch (hc.mono hg) (EmitsBlock.mono hg ht) (EmitsBlock.mono hg he)
  | _, _, _, .whileLoop hc hb => .whileLoop (hc.mono hg) (EmitsBlock.mono hg hb)
  | _, _, _, .forLoop hslot hs hl hd hb =>
    .forLoop (by rwa [hg.proto]) (hs.mono hg) (hl.mono hg) (hd.mono hg) (EmitsBlock.mono hg hb)
  | _, _, _, .retCall hc hcs hsite => .retCall (hc.mono hg) (hcs.mono hg) (hg.sites hsite)
  | _, _, _, .ret hcall hcs => .ret hcall (hcs.mono hg)
  | _, _, _, .breakLoop => .breakLoop

theorem EmitsBlock.mono (hg : before.Grows after) : ∀ {inLoop : Bool} {block : List Stmt}
    {cs : List Step}, EmitsBlock before inLoop block cs → EmitsBlock after inLoop block cs
  | _, _, _, .nil => .nil
  | _, _, _, .cons hs hrest => .cons (EmitsStmt.mono hg hs) (EmitsBlock.mono hg hrest)

end
end

/-! ## The type of code -/

namespace Emits

variable {σ : Setting}

/-- The representation of code is the one of its type. -/
theorem fits : ∀ {e : Expr} {c : Emitted}, Emits σ e c → c.Fits
  | _, _, .nil => rfl
  | _, _, .bool _ => rfl
  | _, _, .int _ => rfl
  | _, _, .float _ => rfl
  | _, _, .str _ => rfl
  | _, _, .slot _ => Emitted.fits_narrow _ _
  | _, _, .upvalue _ => Emitted.fits_narrow _ _
  | _, _, .global _ => rfl
  | _, _, .binary _ _ => Emitted.fits_binary _ _ _
  | _, _, .logical hl hr => Emitted.fits_logical _ (fits hl) (fits hr)
  | _, _, .unary h => Emitted.fits_unary _ (fits h)
  | _, _, .field _ _ _ _ => rfl
  | _, _, .index _ _ => rfl
  | _, _, .call _ _ _ _ _ => Emitted.fits_narrow _ _
  | _, _, .function _ _ _ => rfl
  | _, _, .table _ _ _ => rfl

/-- The type of code is a type of its expression. -/
theorem hasType (hf : σ.shapes.Forest) : ∀ {e : Expr} {c : Emitted}, Emits σ e c →
    HasType σ.knowledge σ.typing e c.type
  | _, _, .nil => .literal _
  | _, _, .bool _ => .literal _
  | _, _, .int _ => .literal _
  | _, _, .float _ => .literal _
  | _, _, .str _ => .literal _
  | _, _, .slot _ => by
    rw [Emitted.type_narrow]
    exact .slot _
  | _, _, .upvalue _ => by
    rw [Emitted.type_narrow]
    exact .upvalue _
  | _, _, .global _ => .any _
  | _, _, .binary hl hr => by
    rw [Emitted.type_binary]
    exact .binary (hasType hf hl) (hasType hf hr)
  | _, _, .logical hl hr => by
    rw [Emitted.type_logical]
    exact .logical (hasType hf hl) (hasType hf hr)
  | _, _, .unary h => by
    rw [Emitted.type_unary]
    exact .unary (hasType hf h)
  | _, _, .field _ _ _ _ => .any _
  | _, _, .index _ _ => .any _
  | _, _, .call _ _ _ htype _ => by
    rw [Emitted.type_narrow]
    exact htype
  | _, _, .function _ _ _ => .function
  | _, _, .table hl hresolve _ => by
    refine .table ?_ hl.has
    show σ.shapes.resolve _ = σ.shapes.resolve _
    rw [hresolve]
    exact hf.resolve_of_frozen hl.frozen

end Emits
end AdaptiveScript
