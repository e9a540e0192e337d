import AdaptiveScript.Proofs.Run.Call
import AdaptiveScript.Proofs.Shape.History
import Mathlib.Data.List.Induction

/-!
# What can be done to a machine

A host builds a program, makes engines, shapes, tables, cells, functions and call sites,
asks for specializations, links sites and calls functions.  `Operation` lists these things,
and `Operation.Valid` says that what an operation refers to exists by then.

A machine is reached (`Machine.Reached`) if operations lead to it from the empty machine.
The machines that a call passes through on its way count as reached too, so what is said of
all reached machines holds in the middle of a run.

* `Operation.advances`: an operation keeps machines sound and loses nothing.
* `Machine.Reached.sound`: every machine that can be reached is sound.
* `Machine.Becomes.advances`: the same for steps that are finer than operations.
-/

namespace AdaptiveScript

/-! ## Sound growth -/

namespace Machine

/-- A sound machine comes from another, and nothing was lost. -/
structure Advances (before after : Machine) : Prop where
  sound : after.Sound
  grows : before.Grows after

namespace Advances

variable {m m' : Machine}

theorem refl (h : m.Sound) : m.Advances m :=
  ⟨h, .refl m⟩

theorem trans {a b c : Machine} (hab : a.Advances b) (hbc : b.Advances c) : a.Advances c :=
  ⟨hbc.sound, hab.grows.trans hbc.grows⟩

theorem of_evolves (h : m.Evolves m') : m.Advances m' :=
  ⟨h.sound, h.grows⟩

theorem setHeap (h : m.Sound) {heap : Heap} (hg : m.heap.Grows heap) (hlaid : heap.Laid m.shapes) :
    m.Advances (m.setHeap heap) :=
  ⟨h.setHeap hg hlaid, .setHeap hg⟩

/-- Changes of what is known. -/
theorem setKnowledge (h : m.Sound) {k : Knowledge} (hev : m.knowledge.Evolves m.program k) :
    m.Advances { m with knowledge := k } := by
  have hg : m.Grows { m with knowledge := k } :=
    ⟨fun _ _ hproto => hproto, hev.grows, .refl _, fun hsite => hsite, fun ht => ht⟩
  refine ⟨h.of_grows hg hev.sound (h.laid.mono hev.grows.shapes h.forest hev.sound.forest)
    (fun _ _ hspec => .inl hspec) (fun _ _ htype => .inl htype)
    (fun _ _ hlink => .inl ⟨hlink, rfl⟩) ?_, hg⟩
  obtain ⟨shapes, hmoment, hforest, hgrows, hlaid⟩ := h.recorded
  exact ⟨shapes, hmoment, hforest, hgrows.trans hev.grows.shapes, hlaid⟩

/-- A call site is made. -/
theorem addSite (h : m.Sound) {static : List Ty} (truncate : Bool)
    (hstatic : ∀ type ∈ static, type.Has m.shapes) :
    m.Advances { m with sites := (m.sites.add (.fresh static truncate)).2 } := by
  have hextends := Linking.Sites.Extends.add m.sites truncate hstatic
  have hg : m.Grows { m with sites := (m.sites.add (.fresh static truncate)).2 } :=
    ⟨fun _ _ hproto => hproto, .refl _, .refl _, hextends.grows, fun ht => ht⟩
  refine ⟨h.of_grows hg h.knowledge h.laid (fun _ _ hspec => .inl hspec) (fun id type htype => ?_)
    (fun id link hlink => ?_) h.recorded, hg⟩
  · rcases hextends.get_cases id with hget | ⟨types, keep, hget, hhas⟩
    · exact .inl (hget ▸ htype)
    · change type ∈ (Linking.Sites.get _ id).static at htype
      rw [hget] at htype
      exact .inr (hhas type htype)
  · change (Linking.Sites.get _ id).link = some link at hlink
    rcases hextends.get_cases id with hget | ⟨types, keep, hget, -⟩
    · rw [hget] at hlink
      exact .inl ⟨hlink, congrArg Linking.Site.truncate hget⟩
    · rw [hget] at hlink
      cases hlink

end Advances
end Machine

/-! ## Making programs -/

section Prototypes

variable {m : Machine} {name : String} {params locals : List String}
  {upvalues : List UpvalueTemplate} {body : List Stmt}

theorem Knowledge.Sound.extend {before after : Program} {k : Knowledge} (h : k.Sound before)
    (hp : before.Extends after) (hscoped : after.Scoped k.shapes) : k.Sound after := by
  refine ⟨h.forest, hscoped, fun hfound => ?_⟩
  obtain ⟨index, proto, Γ, hid, hproto, hrest⟩ := h.returns hfound
  exact ⟨index, proto, Γ, hid, hp index proto hproto, hrest⟩

theorem Machine.Advances.addPrototype (h : m.Sound)
    (hbody : Stmt.BlockEvery (Stmt.Scoped m.program m.shapes) body)
    (htypes : ∀ template ∈ upvalues, template.staticType.Has m.shapes) :
    m.Advances (m.addPrototype name params locals upvalues body).2 := by
  let proto := Prototype.ofParts ⟨m.program.size + 1, name⟩ params locals upvalues body
  have hscoped : Program.Scoped ⟨m.program.prototypes.push proto⟩ m.shapes := by
    refine h.knowledge.inScope.push rfl hbody fun type htype => ?_
    obtain ⟨template, htemplate, rfl⟩ := List.mem_map.mp htype
    exact htypes template (by simpa [proto, Prototype.ofParts] using htemplate)
  have hextends := m.program.extends_push proto
  have hg : m.Grows (m.addPrototype name params locals upvalues body).2 :=
    ⟨hextends, .refl _, .refl _, fun hsite => hsite, fun ht => ht⟩
  refine ⟨h.of_grows hg (h.knowledge.extend hextends hscoped) h.laid (fun index spec hspec => ?_)
    (fun _ _ htype => .inl htype) (fun _ _ hlink => .inl ⟨hlink, rfl⟩) h.recorded, hg⟩
  -- the cache of the new prototype is empty
  change spec ∈ ((m.caches.push .empty).getD index .empty).entries at hspec
  rw [Array.getD_eq_getD_getElem?, Array.getElem?_push] at hspec
  split at hspec
  · cases hspec
  · rw [Array.getD_eq_getD_getElem?]
    exact .inl hspec

end Prototypes

/-! ## Operations -/

/-- What a host can do to a machine. -/
inductive Operation where
  /-- Add a prototype to the program. -/
  | addPrototype (name : String) (params locals : List String) (upvalues : List UpvalueTemplate)
    (body : List Stmt)
  /-- Make an engine. -/
  | addEngine (config : Config)
  /-- Release an engine. -/
  | dropEngine (engine : EngineId)
  /-- Set a global variable. -/
  | setGlobal (engine : EngineId) (name : String) (v : Value)
  /-- Make a shape known to an engine. -/
  | registerShape (engine : EngineId) (shape : ShapeId)
  /-- Make, amend, merge or compile a shape. -/
  | changeShape (op : ShapeOperation)
  /-- Find the return types of a prototype. -/
  | findReturns (maxIterations : Nat) (proto : PrototypeRef)
  /-- Ask for a specialization. -/
  | specialize (engine : EngineId) (proto : PrototypeRef) (args upvalues : List Ty)
    (truncate : Bool)
  /-- Make a cell. -/
  | addCell (v : Value)
  /-- Write to a cell. -/
  | setCell (cell : CellId) (v : Value)
  /-- Make a table, laid out by a compiled shape or by none. -/
  | addTable (shape : Option ShapeId)
  /-- Write to a table. -/
  | setTable (table : TableId) (key : Key) (v : Value)
  /-- Make a closure, a host function or another callable. -/
  | addFunction (name : String) (f : FunctionObject)
  /-- Make a call site. -/
  | addSite (static : List Ty) (truncate : Bool)
  /-- Link a call site. -/
  | link (engine : EngineId) (site : SiteId) (callee : Value) (args : List Value)
  /-- Make a call. -/
  | call (depth : Nat) (request : Request)

namespace Operation

/-- The machine after an operation. -/
def apply (m : Machine) : Operation → Machine
  | .addPrototype name params locals upvalues body =>
    (m.addPrototype name params locals upvalues body).2
  | .addEngine config => (m.addEngine config).2
  | .dropEngine engine => m.dropEngine engine
  | .setGlobal engine name v => m.modifyEngine engine fun e => e.setGlobal name v
  | .registerShape engine shape =>
    m.modifyEngine engine fun e => { e with registry := e.registry.register m.shapes shape }
  | .changeShape op => { m with knowledge := op.apply m.knowledge }
  | .findReturns maxIterations proto =>
    { m with knowledge :=
        ((Inference.returnTypesOf m.program maxIterations proto).run m.knowledge).2 }
  | .specialize engine proto args upvalues truncate =>
    ((Linking.specialize engine proto args upvalues truncate).run.run m).2
  | .addCell v => m.setHeap (m.heap.addCell v).2
  | .setCell cell v => m.setHeap (m.heap.setCell cell v)
  | .addTable none => m.setHeap (m.heap.addTable .empty).2
  | .addTable (some shape) => m.setHeap (m.heap.addTable (.ofLayout (m.shapes.layout shape))).2
  | .setTable table key v => m.setHeap (m.heap.setTable table ((m.heap.table table).set key v))
  | .addFunction name f => (m.addFunction name f).2
  | .addSite static truncate => { m with sites := (m.sites.add (.fresh static truncate)).2 }
  | .link engine site callee args => ((Linking.link engine site callee args).run.run m).2
  | .call depth request => ((answer depth request).run.run m).2

/-- What an operation refers to exists. -/
def Valid (m : Machine) : Operation → Prop
  | .addPrototype _ _ _ upvalues body => Stmt.BlockEvery (Stmt.Scoped m.program m.shapes) body ∧
    ∀ template ∈ upvalues, template.staticType.Has m.shapes
  | .changeShape op => op.Valid m.knowledge
  | .specialize _ _ args upvalues _ =>
    (∀ type ∈ args, type.Has m.shapes) ∧ ∀ type ∈ upvalues, type.Has m.shapes
  | .addTable shape => ∀ id ∈ shape, m.shapes.isFrozen id = true
  | .addSite static _ => ∀ type ∈ static, type.Has m.shapes
  | .link _ site _ _ => 0 < site ∧ site ≤ m.sites.sites.size
  | .call _ request => request.HasSite m
  | _ => True

/-- The machine after some operations. -/
def run (m : Machine) (ops : List Operation) : Machine :=
  ops.foldl apply m

/-- What each of some operations refers to exists by then. -/
def AllValid (m : Machine) : List Operation → Prop
  | [] => True
  | op :: ops => op.Valid m ∧ AllValid (op.apply m) ops

theorem allValid_concat {m : Machine} {ops : List Operation} {op : Operation} :
    AllValid m (ops ++ [op]) ↔ AllValid m ops ∧ op.Valid (run m ops) := by
  induction ops generalizing m with
  | nil => simp [AllValid, run]
  | cons first ops ih => simp [AllValid, run, ih, and_assoc]

theorem returns_changeShape (k : Knowledge) (op : ShapeOperation) :
    (op.apply k).returns = k.returns := by
  cases op with
  | make => rfl
  | amend => rfl
  | amendUnknown => rfl
  | merge a b => exact (Learn.run_mergeShapes k a b).2.2
  | compile shape => exact (Learn.run_compileShape k shape).2.2

theorem compiles_specialize {m : Machine} (h : m.Sound) (engine : EngineId) (ref : PrototypeRef)
    {args upvalues : List Ty} (truncate : Bool) (hargs : ∀ type ∈ args, type.Has m.shapes)
    (hupvalues : ∀ type ∈ upvalues, type.Has m.shapes) :
    m.Compiles ((Linking.specialize engine ref args upvalues truncate).run.run m).2 := by
  cases hproto : m.program.prototype? ref with
  | none => exact (Linking.yields_specialize_none h engine hproto args upvalues truncate).evolves
  | some proto => exact (Linking.yields_specialize h engine hproto truncate hargs hupvalues).evolves

/-- **The step.** An operation keeps machines sound and loses nothing. -/
theorem advances {m : Machine} (h : m.Sound) {op : Operation} (hvalid : op.Valid m) :
    m.Advances (op.apply m) := by
  cases op with
  | addPrototype => exact .addPrototype h hvalid.1 hvalid.2
  | addEngine => exact .of_evolves (.of_same h rfl rfl rfl rfl rfl (fun _ => rfl) rfl)
  | dropEngine => exact .of_evolves (.of_same h rfl rfl rfl rfl rfl (fun _ => rfl) rfl)
  | setGlobal => exact .of_evolves (.of_same h rfl rfl rfl rfl rfl (fun _ => rfl) rfl)
  | registerShape => exact .of_evolves (.of_same h rfl rfl rfl rfl rfl (fun _ => rfl) rfl)
  | changeShape op =>
    have hevolves := (ShapeOperation.advances_apply h.forest hvalid).evolves
    exact .setKnowledge h (.of_shapes h.knowledge hevolves (returns_changeShape m.knowledge op))
  | findReturns maxIterations ref =>
    exact .setKnowledge h
      (Inference.returnTypesOf_sound m.program maxIterations ref m.knowledge h.knowledge).evolves
  | specialize engine ref args upvalues truncate =>
    exact .of_evolves (compiles_specialize h engine ref truncate hvalid.1 hvalid.2).evolves
  | addCell v => exact .setHeap h (.of_cells rfl rfl) (Heap.laid_of_tables h.laid rfl)
  | setCell cell v => exact .setHeap h (.of_cells rfl rfl) (Heap.laid_of_tables h.laid rfl)
  | addTable shape =>
    cases shape with
    | none => exact .setHeap h (.addTable m.heap _) (Heap.laid_addTable h.laid (.empty _))
    | some id =>
      exact .setHeap h (.addTable m.heap _) (Heap.laid_addTable h.laid
        (.ofLayout (Layout.compiled_layout h.forest (hvalid id rfl))))
  | setTable table key v =>
    exact .setHeap h (.setTable m.heap (Table.layout_set _ key v))
      (Heap.laid_setTable h.laid ((h.laid table).set key v) table)
  | addFunction name f =>
    exact .setHeap h (.addFunction m.heap name f) (Heap.laid_of_tables h.laid rfl)
  | addSite static truncate => exact .addSite h truncate hvalid
  | link engine site callee args =>
    exact .of_evolves (Linking.yields_link h engine ⟨hvalid.1, hvalid.2, rfl, rfl⟩ callee
      args).evolves.evolves
  | call depth request => exact .of_evolves (answered_answer depth h hvalid).evolves

end Operation

/-! ## Reached machines -/

namespace Machine

theorem site_empty (id : SiteId) : empty.sites.get id = .fresh [] false := by
  cases id with
  | zero => rfl
  | succ index => rfl

theorem forest_empty : Shapes.empty.Forest :=
  Shapes.forest_of_blank ShapeOperation.state_empty

theorem sound_empty : empty.Sound where
  knowledge := by
    refine ⟨forest_empty, ⟨fun h => ?_, fun h => ?_, fun h => ?_⟩, fun h => by cases h⟩ <;>
      simp [empty, State.empty] at h
  laid _ := .empty _
  specs _ _ h := by cases h
  static id type h := by
    rw [site_empty] at h
    cases h
  links id link h := by
    rw [site_empty] at h
    cases h
  recorded := ⟨.empty, rfl, forest_empty, .refl _, fun _ => .empty _⟩

theorem Trace.advances {m m' : Machine} (h : m.Sound) (htrace : m.Trace m') : m.Advances m' := by
  induction htrace with
  | refl => exact .refl h
  | quiet hev _ _ ih => exact (Advances.of_evolves hev).trans (ih hev.sound)
  | call _ _ _ hprep _ ih => exact (Advances.of_evolves hprep.evolves).trans (ih hprep.sound)

/-- Operations that are allowed lead from one machine to another. -/
inductive Leads (allowed : Operation → Prop) : Machine → Machine → Prop
  | refl (m : Machine) : Leads allowed m m
  /-- An operation is carried out. -/
  | step {m m₁ : Machine} {op : Operation} : Leads allowed m m₁ → allowed op → op.Valid m₁ →
    Leads allowed m (op.apply m₁)
  /-- A call is under way. -/
  | within {m m₁ m' : Machine} : Leads allowed m m₁ → m₁.Trace m' → Leads allowed m m'

/-- **The run.** Operations keep machines sound and lose nothing. -/
theorem Leads.advances {allowed : Operation → Prop} {m m' : Machine} (h : m.Sound)
    (hleads : Leads allowed m m') : m.Advances m' := by
  induction hleads with
  | refl => exact .refl h
  | step _ _ hvalid ih => exact ih.trans (Operation.advances ih.sound hvalid)
  | within _ htrace ih => exact ih.trans (htrace.advances ih.sound)

/-- Operations that refer to what exists lead from one machine to another. -/
theorem Leads.of_operations {allowed : Operation → Prop} {m : Machine} {ops : List Operation}
    (hallowed : ∀ op ∈ ops, allowed op) (hvalid : Operation.AllValid m ops) :
    Leads allowed m (Operation.run m ops) := by
  induction ops using List.reverseRecOn with
  | nil => exact .refl m
  | append_singleton ops op ih =>
    obtain ⟨hbefore, hop⟩ := Operation.allValid_concat.mp hvalid
    rw [Operation.run, List.foldl_append]
    exact .step (ih (fun other hother => hallowed other (List.mem_append_left _ hother)) hbefore)
      (hallowed op (by simp)) hop

/-- Operations lead to a machine. -/
def Reached (m : Machine) : Prop :=
  Leads (fun _ => True) empty m

theorem Reached.of_operations {ops : List Operation} (hvalid : Operation.AllValid empty ops) :
    (Operation.run empty ops).Reached :=
  Leads.of_operations (fun _ _ => trivial) hvalid

/-- Every machine that can be reached is sound. -/
theorem Reached.sound {m : Machine} (h : m.Reached) : m.Sound :=
  (Leads.advances sound_empty h).sound

/-! ## Finer steps

Parts of an operation can be done alone: statements can be analysed without being compiled,
and a table can be written at a slot. -/

/-- Operations and such parts of them lead from one machine to another. -/
inductive Becomes : Machine → Machine → Prop
  | refl (m : Machine) : Becomes m m
  /-- Operations are carried out. -/
  | operate {m m₁ m' : Machine} : Becomes m m₁ → Leads (fun _ => True) m₁ m' → Becomes m m'
  /-- Statements are analysed. -/
  | analyze {m m₁ : Machine} {ctx : Inference} {body : List Stmt} : Becomes m m₁ →
    ctx.Has m₁.shapes → Stmt.BlockEvery (Stmt.Scoped m₁.program m₁.shapes) body →
    Becomes m { m₁ with knowledge := ((ctx.analyze
      (Inference.returnTypesOf m₁.program ctx.maxIterations) body).run m₁.knowledge).2 }
  /-- A slot of a table is written. -/
  | storeSlot {m m₁ : Machine} {table : TableId} {slot : Nat} {v : Value} {t : Table} :
    Becomes m m₁ → (m₁.heap.table table).storeSlot slot v = .ok t →
    Becomes m (m₁.setHeap (m₁.heap.setTable table t))

/-- Finer steps keep machines sound too, and lose nothing. -/
theorem Becomes.advances {m m' : Machine} (h : m.Sound) (hbecomes : m.Becomes m') :
    m.Advances m' := by
  induction hbecomes with
  | refl => exact .refl h
  | operate _ hleads ih => exact ih.trans (hleads.advances ih.sound)
  | @analyze m₁ ctx body _ hctx hbody ih =>
    have hreturns := Inference.returnTypesOf_sound m₁.program ctx.maxIterations
    exact ih.trans (.setKnowledge ih.sound
      (Inference.gives_analyzeFrom hreturns _ 0 ih.sound.knowledge hctx hbody).evolves)
  | @storeSlot m₁ table slot v t _ hstore ih =>
    have hlaid := ih.sound.laid
    exact ih.trans (.setHeap ih.sound (.setTable m₁.heap (Table.layout_storeSlot hstore))
      (Heap.laid_setTable hlaid ((hlaid table).storeSlot hstore) table))

end Machine

/-! ## An example -/

namespace Operation

/-- A program with one function, which returns its argument, an engine, a closure of the
function, and a call site. -/
def makeIdentity (config : Config) (static : List Ty) : List Operation :=
  [.addPrototype "id" ["x"] [] [] [.ret [.slot 0]], .addEngine config,
    .addFunction "id" (.closure ⟨⟨1, "id"⟩, [], 0⟩), .addSite static false]

theorem allValid_makeIdentity (config : Config) {static : List Ty}
    (hstatic : ∀ type ∈ static, type.Has .empty) :
    AllValid .empty (makeIdentity config static) := by
  refine ⟨⟨⟨fun e he x hx => ?_, trivial⟩, nofun⟩, trivial, trivial, hstatic, trivial⟩
  rw [List.mem_singleton.mp he] at hx
  cases hx

end Operation
end AdaptiveScript
