import AdaptiveScript.Compilation
import AdaptiveScript.Execution

/-!
# The linker

A call that finds no fitting link at its site enters the linker, which chooses a target
for the callee under the policy of the site.  The new link is published at the site, with
one exception: an overload of a host function that the planned types do not select, but
the arguments do, is called once and leaves the site as it was.  Nothing is changed at
the site when linking fails.
-/

namespace AdaptiveScript
namespace Linking

/-- The upvalue types that hold for one closure: the declared type where there is one, the
type of the value if it never changes, and nothing otherwise. -/
def identityUpvalueTypes (registry : Registry) (heap : Heap) (proto : Prototype)
    (cells : List CellId) : List Ty :=
  proto.upvalues.toList.zipWith (fun template cell =>
    match template.knownType with
    | some type => type
    | none => if template.isSealed then Ty.ofValue registry heap (heap.cell cell) else .unknown)
    cells

/-- Bind a specialization to the cells of one closure. -/
def construct (spec : Specialization) (cells : List CellId) : Except RuntimeError Target :=
  if cells.length = spec.signature.upvalues.length then .ok (.instance spec cells)
  else .error (.bindingMismatch spec.name spec.signature.upvalues.length cells.length)

/-- The site after a link was published under a plan. -/
def Site.publish (site : Site) (config : Config) (plan : Plan) (link : Link) : Site :=
  { site with
    history := site.history.record config plan link.guard.kind
    link := some link }

/-- What is written down about a published link, given the history before and after. -/
def publishEvents (id : SiteId) (before after : History) (plan : Plan) (link : Link) :
    List Event :=
  (if before.trusting && !after.trusting then [Event.distrusted after.typeChanges] else [])
    ++ (if before.guard = some .identity ∧ link.guard.kind = .prototype
        then [Event.downgraded (after.relinks - 1)] else [])
    ++ [.linked id link.target.name plan.types link.guard.kind plan.source after.relinks]

/-- Publish a link at a site. -/
def publish (engine : EngineId) (id : SiteId) (plan : Plan) (link : Link) : Run Outcome := do
  let m ← get
  let config := (m.engine engine).config
  let site := m.sites.get id
  let next := site.publish config plan link
  modify fun m => { m with sites := m.sites.set id next }
  Run.count engine Stats.addRelink
  (publishEvents id site.history next.history plan link).forM Run.note
  return .linked link

/-- The specialization of a prototype while a program runs. -/
def specialize (engine : EngineId) (ref : PrototypeRef) (args upvalues : List Ty)
    (truncate : Bool) : Run Specialization := do
  let m ← get
  match m.program.prototype? ref with
  | none => Run.raise (.compilation (.other ref.name))
  | some proto =>
    let (result, m) := (Compile.specializeFor engine proto args upvalues truncate).run.run m
    set m
    match result with
    | .ok spec => return spec
    | .error error => Run.raise (.compilation error)

/-- Link a closure. -/
def linkClosure (engine : EngineId) (id : SiteId) (plan : Plan) (ref : FunctionRef)
    (closure : Closure) : Run Outcome := do
  let m ← get
  let truncate := (m.sites.get id).truncate
  let proto? := m.program.prototype? closure.proto
  if plan.identity then
    let upvalues := (proto?.map fun proto =>
      identityUpvalueTypes (m.engine engine).registry m.heap proto closure.cells).getD []
    let spec ← specialize engine closure.proto plan.types upvalues truncate
    let target ← Run.ofExcept (construct spec closure.cells)
    publish engine id plan ⟨.identity ref, target⟩
  else
    let upvalues := (proto?.map Prototype.staticUpvalueTypes).getD []
    let spec ← specialize engine closure.proto plan.types upvalues truncate
    publish engine id plan ⟨.prototype closure.proto.id, .prototype spec⟩

/-- Link a host function: by the planned types if they select an overload, otherwise once,
by the arguments. -/
def linkHost (engine : EngineId) (id : SiteId) (plan : Plan) (ref : FunctionRef)
    (overloads : List Overload) (args : List Value) : Run Outcome := do
  match Overload.select? overloads plan.types with
  | some overload => publish engine id plan ⟨.identity ref, .host ref overload⟩
  | none =>
    let m ← get
    match Overload.selectValues? m.shapes m.heap overloads args with
    | some overload =>
      Run.count engine Stats.addOneShot
      Run.note (.oneShot id ref.name overload plan.types)
      return .oneShot ref overload
    | none => Run.raise (.noOverload ref.name (args.map (m.typeOf engine)))

/-- Choose what runs for a callee at a site. -/
def link (engine : EngineId) (id : SiteId) (callee : Value) (args : List Value) :
    Run Outcome := do
  match callee with
  | .function ref =>
    let m ← get
    let site := m.sites.get id
    let plan := plan site.history (m.engine engine).config site.static
      (args.map (m.typeOf engine))
    match m.heap.function? ref with
    | some (.closure closure) => linkClosure engine id plan ref closure
    | some (.host overloads) => linkHost engine id plan ref overloads args
    | some (.foreign _) => publish engine id plan ⟨.identity ref, .foreign ref⟩
    | none => Run.raise (.notCallable callee.kind)
  | v => Run.raise (.notCallable v.kind)

/-- Enter the linker for a call that was made in a given state. -/
def enter (before : Ghost State) (engine : EngineId) (id : SiteId) (callee : Value)
    (args : List Value) : Run Outcome :=
  remembering (link engine id callee args) fun result m =>
    m.recordEntry before engine id callee args result

end Linking
end AdaptiveScript
