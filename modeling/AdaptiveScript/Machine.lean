import AdaptiveScript.Emission
import AdaptiveScript.Ghost
import AdaptiveScript.Membership

/-!
# Engines and the machine

An engine is what code runs in: a configuration, the shapes it knows, global variables
and counters.  The state is everything there is: a program, what was learnt about it,
the shared objects, the call sites, the specializations of each prototype, and the
engines.

A machine is a state with a memory.  It remembers every state the shared objects have been
in, every read of a local (the type that was found for the local and the value it held),
every call through a call site, and in their order the requests for specializations and the
calls that entered the linker.  That is ghost state.  It consists of predicates and ghosts,
so nothing of it exists when a program runs and nothing can branch on it; it is there to say
what has been true all along a run.
-/

namespace AdaptiveScript

/-- What an engine counts. -/
structure Stats where
  /-- Compilations started. -/
  compilations : Nat
  /-- Links published. -/
  relinks : Nat
  /-- Targets that turned their arguments down. -/
  deoptimizations : Nat
  /-- Overloads called without being bound. -/
  oneShotCalls : Nat
  /-- Callees that a guard held back. -/
  guardFailures : Nat
  deriving DecidableEq, Repr

namespace Stats

/-- Nothing was counted yet. -/
def zero : Stats :=
  ⟨0, 0, 0, 0, 0⟩

/-- The counters as a list. -/
def toList (s : Stats) : List Nat :=
  [s.compilations, s.relinks, s.deoptimizations, s.oneShotCalls, s.guardFailures]

/-- The counters as a JSON object. -/
def json (s : Stats) : String :=
  "\x7b\"compilations\":" ++ toString s.compilations
    ++ ",\"relinks\":" ++ toString s.relinks
    ++ ",\"deoptimizations\":" ++ toString s.deoptimizations
    ++ ",\"one_shot_calls\":" ++ toString s.oneShotCalls
    ++ ",\"guard_failures\":" ++ toString s.guardFailures ++ "\x7d"

/-- Count a compilation. -/
def addCompilation (s : Stats) : Stats :=
  { s with compilations := s.compilations + 1 }

/-- Count a published link. -/
def addRelink (s : Stats) : Stats :=
  { s with relinks := s.relinks + 1 }

/-- Count a target that turned its arguments down. -/
def addDeoptimization (s : Stats) : Stats :=
  { s with deoptimizations := s.deoptimizations + 1 }

/-- Count an overload called without being bound. -/
def addOneShot (s : Stats) : Stats :=
  { s with oneShotCalls := s.oneShotCalls + 1 }

/-- Count a callee that a guard held back. -/
def addGuardFailure (s : Stats) : Stats :=
  { s with guardFailures := s.guardFailures + 1 }

end Stats

/-- What code runs in. -/
structure Engine where
  /-- The configuration. -/
  config : Config
  /-- The shapes it knows. -/
  registry : Registry
  /-- The global variables that are not nil. -/
  globals : List (String × Value)
  /-- The counters. -/
  stats : Stats
  /-- How many routines were made ready to run. -/
  loaded : Nat
  /-- Whether closures can still reach the engine. -/
  alive : Bool

namespace Engine

/-- A new engine. -/
def ofConfig (config : Config) : Engine :=
  ⟨config, .empty, [], .zero, 0, true⟩

/-- The value of a global variable. -/
def global (engine : Engine) (name : String) : Value :=
  (engine.globals.lookup name).getD .nil

/-- Set a global variable; nil removes it. -/
def setGlobal (engine : Engine) (name : String) (v : Value) : Engine :=
  let others := Association.without name engine.globals
  { engine with globals := if v.isNil then others else (name, v) :: others }

/-- Count something. -/
def count (engine : Engine) (f : Stats → Stats) : Engine :=
  { engine with stats := f engine.stats }

@[simp] theorem global_setGlobal_self (engine : Engine) (name : String) (v : Value) :
    (engine.setGlobal name v).global name = v := by
  cases v <;> simp [setGlobal, global, Value.isNil]

theorem global_setGlobal_of_ne (engine : Engine) {name other : String} (h : other ≠ name)
    (v : Value) : (engine.setGlobal name v).global other = engine.global other := by
  have hne : (other == name) = false := by simpa using h
  cases v <;>
    simp [setGlobal, global, Value.isNil, List.lookup_cons, hne, Association.lookup_without_of_ne h]

end Engine

/-- What the types of values depend on, at one moment. -/
structure Moment where
  /-- All shapes. -/
  shapes : Shapes
  /-- The shared objects. -/
  heap : Heap

/-- A call through a call site. -/
structure SiteCall where
  /-- When the call was made. -/
  moment : Moment
  /-- The engine it was made in. -/
  engine : EngineId
  /-- The configuration of the engine. -/
  config : Config
  /-- The call site. -/
  site : SiteId
  /-- What was called. -/
  callee : Value
  /-- What it was called with. -/
  args : List Value

/-- Everything there is. -/
structure State where
  /-- The program. -/
  program : Program
  /-- What was learnt about it. -/
  knowledge : Knowledge
  /-- The shared objects. -/
  heap : Heap
  /-- The call sites. -/
  sites : Linking.Sites
  /-- The specializations of each prototype, in the order of prototypes. -/
  caches : Array Cache
  /-- The engines. -/
  engines : Array Engine

namespace State

/-- Nothing. -/
def empty : State :=
  ⟨⟨#[]⟩, .empty, .empty, .empty, #[], #[]⟩

/-- The present moment. -/
def moment (s : State) : Moment :=
  ⟨s.knowledge.shapes, s.heap⟩

/-- All shapes. -/
def shapes (s : State) : Shapes :=
  s.knowledge.shapes

/-- An engine by number. -/
def engine (s : State) (id : EngineId) : Engine :=
  s.engines.getD id (.ofConfig .default)

/-- The specializations of a prototype. -/
def cache (s : State) (ref : PrototypeRef) : Cache :=
  s.caches.getD (ref.id - 1) .empty

/-- The type of a value as an engine sees it. -/
def typeOf (s : State) (engine : EngineId) (v : Value) : Ty :=
  Ty.ofValue (s.engine engine).registry s.heap v

end State

/-- A request for a specialization, and what it came to. -/
structure Demand where
  /-- The engine that it was made in. -/
  engine : EngineId
  /-- The prototype. -/
  proto : PrototypeRef
  /-- The signature. -/
  signature : Signature
  /-- The specialization that was given, or why there was none. -/
  result : Except CompileError Specialization
  /-- The state when the request was made. -/
  before : State
  /-- The state when it was answered. -/
  after : State

/-- A call that entered the linker, and what that came to. -/
structure Linking.Entry where
  /-- The engine that the call was made in. -/
  engine : EngineId
  /-- The site that it went through. -/
  site : SiteId
  /-- What was called. -/
  callee : Value
  /-- The arguments. -/
  args : List Value
  /-- The link that was published or the overload that was called, or why there was none. -/
  result : Except Stop Linking.Outcome
  /-- The state when the call was made. -/
  before : State
  /-- The state when the linker was done. -/
  after : State

/-- A state, and what is remembered of how it came about. -/
structure Machine extends State where
  /-- Ghost: the moments right after each change of the shared objects. -/
  moments : Moment → Prop
  /-- Ghost: the reads of locals so far, each as the moment it happened at, the type found
  for the local and the value it held. -/
  reads : Moment → Ty → Value → Prop
  /-- Ghost: the calls through call sites so far. -/
  calls : SiteCall → Prop
  /-- Ghost: the requests for specializations so far. -/
  demands : Ghost (List Demand)
  /-- Ghost: the calls that entered the linker so far. -/
  entries : Ghost (List Linking.Entry)

instance : Coe Machine State :=
  ⟨Machine.toState⟩

namespace Machine

/-- A machine without a program. -/
def empty : Machine :=
  ⟨.empty, fun t => t = ⟨.empty, .empty⟩, fun _ _ _ => False, fun _ => False, .of [], .of []⟩

/-- Change the shared objects. -/
def setHeap (m : Machine) (heap : Heap) : Machine :=
  { m with heap, moments := fun t => m.moments t ∨ t = ⟨m.knowledge.shapes, heap⟩ }

/-- Remember a read of a local. -/
def observe (m : Machine) (type : Ty) (v : Value) : Machine :=
  { m with reads := fun t ty w => m.reads t ty w ∨ (t = m.moment ∧ ty = type ∧ w = v) }

/-- Add a prototype to the program. -/
def addPrototype (m : Machine) (name : String) (params locals : List String)
    (upvalues : List UpvalueTemplate) (body : List Stmt) : PrototypeRef × Machine :=
  let ref : PrototypeRef := ⟨m.program.size + 1, name⟩
  let proto := Prototype.ofParts ref params locals upvalues body
  (ref, { m with
    program := ⟨m.program.prototypes.push proto⟩
    caches := m.caches.push .empty })

/-- Remember a call through a call site. -/
def recordCall (m : Machine) (engine : EngineId) (site : SiteId) (callee : Value)
    (args : List Value) : Machine :=
  { m with calls := fun call => m.calls call ∨
      call = ⟨m.moment, engine, (m.engine engine).config, site, callee, args⟩ }

/-- Remember a request for a specialization, which was made in a state that is given. -/
def recordDemand (m : Machine) (before : Ghost State) (engine : EngineId) (proto : PrototypeRef)
    (signature : Signature) (result : Except CompileError Specialization) : Machine :=
  { m with demands := .map₂ (fun demands before =>
      demands ++ [⟨engine, proto, signature, result, before, m.toState⟩]) m.demands before }

/-- Remember a call that entered the linker, and which was made in a state that is given. -/
def recordEntry (m : Machine) (before : Ghost State) (engine : EngineId) (site : SiteId)
    (callee : Value) (args : List Value) (result : Except Stop Linking.Outcome) : Machine :=
  { m with entries := .map₂ (fun entries before =>
      entries ++ [⟨engine, site, callee, args, result, before, m.toState⟩]) m.entries before }

/-- Change an engine. -/
def modifyEngine (m : Machine) (id : EngineId) (f : Engine → Engine) : Machine :=
  { m with engines := m.engines.modify id f }

/-- Change the specializations of a prototype. -/
def modifyCache (m : Machine) (ref : PrototypeRef) (f : Cache → Cache) : Machine :=
  { m with caches := m.caches.modify (ref.id - 1) f }

/-- Write an event down. -/
def note (m : Machine) (event : Event) : Machine :=
  { m with knowledge := { m.knowledge with journal := m.knowledge.journal.push event } }

/-- Add an engine. -/
def addEngine (m : Machine) (config : Config) : EngineId × Machine :=
  let m := m.note (.engineMade config)
  (m.engines.size, { m with engines := m.engines.push (.ofConfig config) })

/-- Release an engine; closures can no longer reach it. -/
def dropEngine (m : Machine) (id : EngineId) : Machine :=
  m.modifyEngine id fun engine => { engine with alive := false }

/-- Make a function. -/
def addFunction (m : Machine) (name : String) (f : FunctionObject) : FunctionRef × Machine :=
  let (ref, heap) := m.heap.addFunction name f
  (ref, m.setHeap heap)

/-- Make a closure of a prototype over given cells. -/
def instantiateWith (m : Machine) (engine : EngineId) (proto : PrototypeRef)
    (cells : List CellId) : FunctionRef × Machine :=
  m.addFunction proto.name (.closure ⟨proto, cells, engine⟩)

/-- Make a closure of a prototype.  Every upvalue starts as nil. -/
def instantiate (m : Machine) (engine : EngineId) (proto : Prototype) : FunctionRef × Machine :=
  let (cells, heap) := m.heap.addCells (List.replicate proto.upvalues.size .nil)
  (m.setHeap heap).instantiateWith engine proto.ref cells

/-- Make a host function and bind it to the global variable of the same name. -/
def registerHost (m : Machine) (engine : EngineId) (name : String) (overloads : List Overload) :
    FunctionRef × Machine :=
  let (ref, m) := m.addFunction name (.host overloads)
  (ref, m.modifyEngine engine fun e => e.setGlobal name (.function ref))

end Machine

/-- Carry out a computation and let the machine remember what it came to. -/
def remembering {ε α : Type} (x : ExceptT ε (StateM Machine) α)
    (remember : Except ε α → Machine → Machine) : ExceptT ε (StateM Machine) α :=
  ExceptT.mk do
    let result ← x.run
    modify (remember result)
    return result

end AdaptiveScript
