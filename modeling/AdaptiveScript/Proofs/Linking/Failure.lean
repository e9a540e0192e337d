import AdaptiveScript.Proofs.Linking.Dispatch

/-!
# Why linking fails

The linker fails for reasons of its own: there is nothing to call, the callee cannot be
compiled or bound, or no overload takes the arguments (`Linking.Failure`).  It never fails
with an error of a check, and never with one that specialized code raises.
-/

namespace AdaptiveScript
namespace Linking

/-- Why linking a callee for some arguments fails in an engine. -/
inductive Failure (m : Machine) (engine : EngineId) (args : List Value) : Value → Stop → Prop
  /-- The callee is no function. -/
  | notCallable {callee : Value} :
    (∀ ref, callee = .function ref → m.heap.function? ref = none) →
    Failure m engine args callee (.error (.notCallable callee.kind))
  /-- The prototype of the callee cannot be compiled. -/
  | compilation {ref : FunctionRef} {closure : Closure} {error : CompileError} :
    m.heap.function? ref = some (.closure closure) →
    (∀ proto, m.program.prototype? closure.proto = some proto →
      ¬ Stmt.BlockWellFormed m.program proto false proto.body) →
    Failure m engine args (.function ref) (.error (.compilation error))
  /-- The callee does not have the cells that its prototype needs. -/
  | binding {ref : FunctionRef} {closure : Closure} {name : String} {expected found : Nat} :
    m.heap.function? ref = some (.closure closure) →
    (∀ proto, m.program.prototype? closure.proto = some proto →
      closure.cells.length ≠ proto.upvalues.size) →
    Failure m engine args (.function ref) (.error (.bindingMismatch name expected found))
  /-- No overload of the callee takes the arguments. -/
  | noOverload {ref : FunctionRef} {overloads : List Overload} :
    m.heap.function? ref = some (.host overloads) →
    Overload.selectValues? m.shapes m.heap overloads args = none →
    Failure m engine args (.function ref)
      (.error (.noOverload ref.name (args.map (m.typeOf engine))))

theorem Failure.isViolation {m : Machine} {engine : EngineId} {args : List Value}
    {callee : Value} {e : RuntimeError} (h : Failure m engine args callee (.error e)) :
    e.isViolation = false := by
  cases h <;> rfl

/-- Publishing never fails. -/
theorem fails_publish {P : Stop → Prop} (engine : EngineId) (id : SiteId) (plan : Plan)
    (link : Link) (m : Machine) : Fails m (publish engine id plan link) P := by
  intro stop heq
  rw [run_publish] at heq
  cases heq

/-! ## Closures -/

/-- A specialization is missing only if its prototype cannot be compiled. -/
theorem fails_specialize {m : Machine} (engine : EngineId) (ref : PrototypeRef)
    (args upvalues : List Ty) (truncate : Bool) :
    Fails m (specialize engine ref args upvalues truncate)
      fun stop => ∃ error, stop = .error (.compilation error) := by
  cases hproto : m.program.prototype? ref with
  | none =>
    refine .of_get ?_
    rw [hproto]
    exact .throw ⟨_, rfl⟩
  | some proto =>
    intro stop heq
    rw [run_specialize engine hproto] at heq
    dsimp only at heq
    revert heq
    generalize (Compile.specialize engine proto
      (Signature.forPrototype m.shapes proto args upvalues truncate)).run.run m = r
    intro heq
    obtain ⟨result, m'⟩ := r
    cases result with
    | ok spec => cases heq
    | error error =>
      cases heq
      exact ⟨error, rfl⟩

/-- A closure for which there is no specialization has a body that cannot be compiled. -/
theorem fails_specialize_closure {m : Machine} (h : m.Sound) (engine : EngineId)
    {ref : FunctionRef} {closure : Closure}
    (hclosure : m.heap.function? ref = some (.closure closure)) {types : List Ty}
    (htypes : ∀ type ∈ types, type.Has m.shapes) {upvalues : List Ty}
    (hupvalues : ∀ proto, m.program.prototype? closure.proto = some proto →
      ∀ type ∈ upvalues, type.Has m.shapes) (truncate : Bool) (args : List Value) :
    Fails m (specialize engine closure.proto types upvalues truncate)
      (Failure m engine args (.function ref)) := by
  intro stop heq
  obtain ⟨error, rfl⟩ := fails_specialize engine closure.proto types upvalues truncate stop heq
  refine .compilation hclosure fun proto hproto hbody => ?_
  obtain ⟨spec, hspec⟩ := (yields_specialize h engine hproto truncate htypes
    (hupvalues proto hproto)).total hbody
  rw [hspec] at heq
  cases heq

/-- Linking a closure fails if it cannot be compiled, or if it does not have the cells that
its prototype needs. -/
theorem fails_linkClosure {m : Machine} (h : m.Sound) (engine : EngineId) (id : SiteId)
    (plan : Plan) (hplan : ∀ type ∈ plan.types, type.Has m.shapes) {ref : FunctionRef}
    {closure : Closure} (hclosure : m.heap.function? ref = some (.closure closure))
    (args : List Value) : Fails m (linkClosure engine id plan ref closure)
      (Failure m engine args (.function ref)) := by
  refine .of_get ?_
  dsimp only
  split
  · refine (fails_specialize_closure h engine hclosure hplan (fun proto hproto => ?_) _ args).bind
      fun spec m₁ hrun => ?_
    · rw [hproto]
      exact has_identityUpvalueTypes h (m.engine engine).registry hproto
    · refine Fails.bind ?_ fun target m₂ _ => fails_publish engine id plan _ m₂
      unfold construct
      split
      · exact .pure
      · next hlength =>
        refine .throw (.binding hclosure fun proto hproto hcells => hlength ?_)
        -- the upvalue types asked for are as many as the cells
        rw [hproto] at hrun
        have hupvalues := has_identityUpvalueTypes h (m.engine engine).registry hproto
        have hspec := (yields_specialize h engine hproto (m.sites.get id).truncate hplan
          hupvalues).post (congrArg Prod.fst hrun)
        rw [hspec.1]
        show _ = (List.map _ (identityUpvalueTypes _ _ _ _)).length
        rw [List.length_map, length_identityUpvalueTypes _ _ hcells, hcells]
  · refine (fails_specialize_closure h engine hclosure hplan (fun proto hproto => ?_) _ args).bind
      fun spec m₁ _ => fails_publish engine id plan _ m₁
    rw [hproto]
    exact has_staticUpvalueTypes h hproto

/-! ## All callees -/

/-- Linking a host function fails if no overload takes the arguments. -/
theorem fails_linkHost {m : Machine} (engine : EngineId) (id : SiteId) (plan : Plan)
    {ref : FunctionRef} {overloads : List Overload}
    (hhost : m.heap.function? ref = some (.host overloads)) (args : List Value) :
    Fails m (linkHost engine id plan ref overloads args)
      (Failure m engine args (.function ref)) := by
  unfold linkHost
  split
  · exact fails_publish engine id plan _ m
  · refine .of_get ?_
    split
    · exact Fails.bind .modify fun _ _ _ => Fails.bind .modify fun _ _ _ => .pure
    · next hselect => exact .throw (.noOverload hhost hselect)

/-- **The linker** fails for one of its own reasons. -/
theorem fails_link {m : Machine} (h : m.Sound) (engine : EngineId) (id : SiteId) (callee : Value)
    (args : List Value) : Fails m (link engine id callee args) (Failure m engine args callee) := by
  cases callee with
  | function ref =>
    refine .of_get ?_
    dsimp only
    cases hfunction : m.heap.function? ref with
    | none =>
      refine .throw (.notCallable fun ref' heq => ?_)
      cases heq
      exact hfunction
    | some f =>
      cases f with
      | closure closure =>
        exact fails_linkClosure h engine id _ (has_plan h engine id _ _ args) hfunction args
      | host overloads => exact fails_linkHost engine id _ hfunction args
      | foreign action => exact fails_publish engine id _ _ m
  | _ => exact .throw (.notCallable nofun)

/-- A failure before anything changed that the linker looks at is one after it. -/
theorem Failure.congr {m m' : Machine} {engine : EngineId} {args : List Value} {callee : Value}
    {stop : Stop} (h : Failure m' engine args callee stop) (hprogram : m'.program = m.program)
    (hheap : m'.heap = m.heap) (hshapes : m'.shapes = m.shapes)
    (htypes : m'.typeOf engine = m.typeOf engine) : Failure m engine args callee stop := by
  cases h with
  | notCallable hnone => exact .notCallable (by rwa [hheap] at hnone)
  | compilation hclosure hbody =>
    exact .compilation (by rwa [hheap] at hclosure) (by rwa [hprogram] at hbody)
  | binding hclosure hcells =>
    exact .binding (by rwa [hheap] at hclosure) (by rwa [hprogram] at hcells)
  | noOverload hhost hselect =>
    rw [htypes]
    exact .noOverload (by rwa [hheap] at hhost) (by rwa [hheap, hshapes] at hselect)

section Relinks

variable {m m₀ : Machine} {engine : EngineId} {id : SiteId} {callee : Value} {args : List Value}

/-- The linker sees the types of values as they were when the call was made. -/
theorem Relinks.typeOf (h : Relinks m engine id callee args m₀) :
    m₀.typeOf engine = m.typeOf engine := by
  have hregistry {f : Stats → Stats} :
      ((m.modifyEngine engine fun e => e.count f).engine engine).registry =
        (m.engine engine).registry :=
    Machine.engine_modifyEngine Engine.registry m engine (f := fun e => e.count f)
      (fun _ => rfl) engine
  funext v
  cases h with
  | unlinked => rfl
  | guardFailed => exact congrArg (fun r => Ty.ofValue r m.heap v) hregistry
  | rejected => exact congrArg (fun r => Ty.ofValue r m.heap v) hregistry

/-- The linker looks at a machine in which only a counter and the journal changed. -/
theorem Relinks.failure (hrelinks : Relinks m engine id callee args m₀) {stop : Stop}
    (h : Failure m₀ engine args callee stop) : Failure m engine args callee stop := by
  have htypes := hrelinks.typeOf
  cases hrelinks with
  | unlinked _ => exact h
  | guardFailed _ _ => exact h.congr rfl rfl rfl htypes
  | rejected _ _ _ => exact h.congr rfl rfl rfl htypes

end Relinks

/-! ## Checks -/

theorem Specialization.isViolation_begin {m : Machine} {cells : List CellId} {args : List Value}
    {spec : Specialization} {e : RuntimeError}
    (h : Specialization.begin m cells args spec = .error e) : e.isViolation = false := by
  unfold Specialization.begin at h
  cases hcheck : spec.check m.shapes m.heap cells args with
  | ok u =>
    rw [hcheck] at h
    cases h
  | error reason =>
    rw [hcheck] at h
    cases h
    exact isViolation_of_isCodeFault (AdaptiveScript.Specialization.isCodeFault_check hcheck)

/-- Targets turn arguments down with errors of their own. -/
theorem Target.isViolation_begin {m : Machine} {callee : Value} {args : List Value}
    {target : Target} {e : RuntimeError} (h : target.begin m callee args = .error e) :
    e.isViolation = false := by
  cases target with
  | «instance» spec cells => exact Specialization.isViolation_begin h
  | «prototype» spec =>
    rw [Target.begin] at h
    split at h
    · exact Specialization.isViolation_begin h
    · cases h
      rfl
  | host ref index =>
    rw [Target.begin] at h
    split at h
    · cases h
      rfl
    · split at h
      · cases h
      · cases h
        rfl
  | foreign ref => cases h

/-- A call that starts nothing does not end in an error of specialized code. -/
theorem Dispatch.isViolation {m m₁ : Machine} (h : m.Sound) {engine : EngineId} {id : Nat}
    {callee : Value} {args : List Value} {e : RuntimeError}
    (hdispatch : Dispatch m engine id callee args (.error (.error e)) m₁) :
    e.isViolation = false := by
  cases hdispatch with
  | refused _ _ hbegin => exact Target.isViolation_begin hbegin
  | failed hrelinks hrun =>
    exact (fails_link (hrelinks.prepares h).sound engine id callee args _
      (congrArg Prod.fst hrun)).isViolation

/-- If the arguments have the static types of the site and the callee keeps what it declares,
a call starts nothing only if the linker fails. -/
theorem Dispatch.failure {m m₁ : Machine} (h : m.Sound) {engine : EngineId} {id : Nat}
    {static : List Ty} {truncate : Bool} (hsite : m.sites.Has id static truncate) {callee : Value}
    {args : List Value} (hargs : m.AdmitsAll static args) (hkeeps : Keeps m callee) {stop : Stop}
    (hdispatch : Dispatch m engine id callee args (.error stop) m₁) :
    (∃ m₀, Relinks m engine id callee args m₀ ∧
      (enter (.of m.toState) engine id callee args).run.run m₀ = (.error stop, m₁)) ∧
    Failure m engine args callee stop := by
  obtain ⟨m₀, hrelinks, hrun⟩ := hdispatch.eq_link_error h hsite hargs hkeeps
  have hfails := fails_link (hrelinks.prepares h).sound engine id callee args stop
    (congrArg Prod.fst hrun)
  exact ⟨⟨m₀, hrelinks, hrun⟩, hrelinks.failure hfails⟩

end Linking
end AdaptiveScript
