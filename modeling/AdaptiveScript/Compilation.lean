import AdaptiveScript.Machine

/-!
# Compilation

`specialize` gives the specialization of a prototype for a signature.  The first request
infers types and emits code; every later request for the same signature gives the same
specialization.  A compilation that fails leaves no entry, so the next request tries
again.
-/

namespace AdaptiveScript

/-- Computations that compile. -/
abbrev Compile := ExceptT CompileError (StateM Machine)

namespace Compile

/-- Change the machine. -/
def update (f : Machine → Machine) : Compile Unit :=
  modify f

/-- Emit code in an engine; what emission changes goes back to the machine, whether it
succeeds or not.  The result comes with the constants and call sites of the code. -/
def emit {α : Type} (engine : EngineId) (e : Emit α) :
    Compile (α × Array Value × Array SiteId) := do
  let m ← get
  let (result, s) := e.run.run
    ⟨m.knowledge, (m.engine engine).registry, m.sites, #[], #[]⟩
  set { m.modifyEngine engine fun en => { en with registry := s.registry } with
    knowledge := s.knowledge
    sites := s.sites }
  match result with
  | .ok a => return (a, s.constants, s.owned)
  | .error error => throw error

/-- Infer the types of a body under a signature and emit its code. -/
def body (program : Program) (proto : Prototype) (signature : Signature)
    (maxIterations : Nat) : Emit (Inference × List Step) := do
  let start := Inference.ofTypes proto signature.args signature.upvalues maxIterations
  let returnsOf := Inference.returnTypesOf program start.maxIterations
  let types ← Emit.learn (start.analyze returnsOf proto.body)
  let steps ← Emit.block ⟨program, types⟩ false proto.body
  return (types, steps)

/-- Compile a prototype for a signature. -/
def compile (engine : EngineId) (proto : Prototype) (signature : Signature) :
    Compile Specialization := do
  let m ← get
  let config := (m.engine engine).config
  let ((types, steps), constants, sites) ←
    emit engine (body m.program proto signature config.maxInferenceIterations)
  let spec : Specialization :=
    { proto := proto.ref
      signature
      returns := Specialization.visibleReturns signature types.returnTypes
      name := Specialization.routineName proto.ref.name signature
      paramCount := proto.paramCount
      captured := proto.locals.toList.map LocalDecl.captured
      locals := (List.range proto.localCount).map types.varType
      constants
      body := steps
      sites := sites.toList }
  update fun m => m.modifyEngine engine fun e => { e with loaded := e.loaded + 1 }
  update fun m => m.note (.loaded spec.name spec.sites.length spec.returns)
  return spec

/-- Find a specialization in the cache of its prototype, or compile it. -/
def serve (engine : EngineId) (proto : Prototype) (signature : Signature) :
    Compile Specialization := do
  match ((← get).cache proto.ref).lookup? signature with
  | some spec => return spec
  | none =>
    update fun m => m.modifyCache proto.ref fun c => { c with compileCount := c.compileCount + 1 }
    update fun m => m.modifyEngine engine fun e => e.count Stats.addCompilation
    update fun m => m.note (.specializing proto.ref.name signature)
    let spec ← compile engine proto signature
    update fun m => m.modifyCache proto.ref fun c => c.insert spec
    return spec

/-- The specialization of a prototype for a signature, compiled on the first request. -/
def specialize (engine : EngineId) (proto : Prototype) (signature : Signature) :
    Compile Specialization := do
  let before := Ghost.of (← get).toState
  remembering (serve engine proto signature) fun result m =>
    m.recordDemand before engine proto.ref signature result

/-- The specialization for calling a prototype with arguments of the given types. -/
def specializeFor (engine : EngineId) (proto : Prototype) (args upvalues : List Ty)
    (truncate : Bool) : Compile Specialization := do
  specialize engine proto
    (Signature.forPrototype (← get).shapes proto args upvalues truncate)

end Compile
end AdaptiveScript
