import AdaptiveScript.Proofs.Emission.Faults
import AdaptiveScript.Proofs.Emission.Guarded
import AdaptiveScript.Proofs.Run.Deeds

/-!
# Captured locals are kept in cells

A local of a running routine is kept in a cell exactly if its prototype marks it as captured
(`Specialization.boxes_of_reaches`), from the moment the routine is entered and through every
declaration and assignment.  Since the marks are exact, this serves both sides: a literal always
finds the cells that it closes over, and a local that no literal captures is out of reach for all
code but the routine's own.

For whole runs it is an invariant that all code in a machine comes from prototypes with exact
marks.  Compiling, linking and calling keep it (`Linking.safe_link`, `safe_answer`), and so does
whatever else a host does (`Deed.marked`).  In such machines no call ends in the error that a
captured local is not boxed.
-/

namespace AdaptiveScript

/-! ## Compiled routines -/

namespace Compile

theorem delivers_emit {α : Type} {e : Emit α} {P : α → Prop} (h : Delivers e P)
    (engine : EngineId) : Delivers (emit engine e) fun r => P r.1 := by
  intro m r m' hrun
  rw [run_emit] at hrun
  dsimp only at hrun
  cases he : e.run.run (start m engine) with
  | mk result s =>
    rw [he] at hrun
    cases result with
    | error error => cases hrun
    | ok a =>
      cases hrun
      exact h he

/-- A body that can be compiled captures locals that exist, and its code is guarded. -/
theorem delivers_body (program : Program) (proto : Prototype) (signature : Signature)
    (maxIterations : Nat) : Delivers (body program proto signature maxIterations) fun r =>
      (∀ slot, Stmt.CapturesSlot proto.body slot → slot < proto.localCount) ∧
        (proto.IsMarked → Step.BlockGuarded proto.marks r.2) := by
  intro s r s' hrun
  have hrange : ∀ slot, Stmt.CapturesSlot proto.body slot → slot < proto.localCount := by
    intro slot hslot
    have hfault := Emit.fault?_body program proto signature maxIterations s
    rw [hrun] at hfault
    exact Use.firstFault_eq_none_iff.mp hfault.symm _ (hslot.mem_blockUses false)
  refine ⟨hrange, fun hmarked => ?_⟩
  have hguarded : Delivers (body program proto signature maxIterations) fun r =>
      Step.BlockGuarded proto.marks r.2 := by
    have hproto : Delivers (Emit.learn ((Inference.ofTypes proto signature.args signature.upvalues
        maxIterations).analyze (Inference.returnTypesOf program (max maxIterations 1))
        proto.body)) fun types => types.proto = proto := by
      rintro s types s' ⟨⟩
      exact Inference.proto_analyze _ _ _ _
    refine hproto.bind fun types htypes => ?_
    have hblock := Emit.guarded_block ⟨program, types⟩ false proto.body
    rw [Scope.proto, htypes] at hblock
    exact (hblock (hmarked.covers hrange)).bind fun steps hsteps => .pure hsteps
  exact hguarded hrun

theorem delivers_compile (engine : EngineId) (proto : Prototype) (signature : Signature) :
    Delivers (compile engine proto signature) fun spec => spec.captured = proto.marks ∧
      (∀ slot, Stmt.CapturesSlot proto.body slot → slot < proto.localCount) ∧
      (proto.IsMarked → Step.BlockGuarded proto.marks spec.body) := by
  refine .andThen fun m => ?_
  refine (delivers_emit (delivers_body m.program proto signature _) engine).bind fun r hr => ?_
  exact .andThen fun _ => .andThen fun _ => .pure ⟨rfl, hr⟩

end Compile

namespace Specialization

variable {spec : Specialization}

theorem IsMarked.blockGuarded (h : spec.IsMarked) : Step.BlockGuarded spec.captured spec.body := by
  obtain ⟨proto, hproto, m, engine, signature, m', hrun⟩ := h
  obtain ⟨hcaptured, -, hguarded⟩ := Compile.delivers_compile engine proto signature hrun
  rw [hcaptured]
  exact hguarded hproto

/-- A routine keeps those locals in cells which are marked. -/
theorem boxes_frame (spec : Specialization) (engine : EngineId) (cells : List CellId)
    (args : List Value) (heap : Heap) :
    (spec.frame engine cells args heap).1.boxes = spec.captured := by
  have hopen : ∀ (initial : List (Value × Bool)) (heap : Heap),
      (Frame.openLocals heap initial).1.map Variable.isShared = initial.map Prod.snd := by
    intro initial
    induction initial with
    | nil => exact fun _ => rfl
    | cons first rest ih =>
      intro heap
      obtain ⟨v, captured⟩ := first
      cases captured with
      | false => exact congrArg (false :: ·) (ih heap)
      | true => exact congrArg (true :: ·) (ih (heap.addCell v).2)
  show (Frame.openLocals heap (spec.initialLocals args)).1.map Variable.isShared = _
  rw [hopen, initialLocals, List.map_map]
  exact List.zipIdx_map_fst 0 spec.captured

end Specialization

/-! ## Machines -/

namespace Machine

variable {m m' : Machine}

theorem Marked.prototype (h : m.Marked) {ref : PrototypeRef} {proto : Prototype}
    (hproto : m.program.prototype? ref = some proto) : proto.IsMarked := by
  unfold Program.prototype? at hproto
  split at hproto
  · cases hproto
  · exact h.prototypes hproto

/-- Compiling leaves the program and the links as they are, and adds marked code at most. -/
theorem Marked.of_undisturbed (h : m.Marked) (hquiet : m.Undisturbed m') {place : Nat}
    {f : Cache → Cache} (hcaches : m'.caches.toList = m.caches.toList.modify place f)
    (hf : ∀ c, ∀ spec ∈ (f c).entries, spec ∈ c.entries ∨ spec.IsMarked) : m'.Marked := by
  constructor
  · intro index proto hproto
    rw [hquiet.program] at hproto
    exact h.prototypes hproto
  · intro index cache hcache spec hspec
    rw [Compile.getElem?_caches hcaches] at hcache
    split at hcache
    · obtain ⟨c, hc, rfl⟩ := Option.map_eq_some_iff.mp hcache
      exact (hf c spec hspec).elim (h.specs hc spec) id
    · exact h.specs hcache spec hspec
  · intro id link hlink
    exact h.links (hquiet.sites.link_eq hlink)

theorem Marked.lookup (h : m.Marked) {ref : PrototypeRef} {signature : Signature}
    {spec : Specialization} (hlookup : (m.cache ref).lookup? signature = some spec) :
    spec.IsMarked := by
  have hmem : spec ∈ (m.cache ref).entries := List.mem_of_find?_eq_some hlookup
  simp only [State.cache, Array.getD_eq_getD_getElem?] at hmem
  cases hat : m.caches[ref.id - 1]? with
  | none =>
    rw [hat] at hmem
    cases hmem
  | some c =>
    rw [hat] at hmem
    exact h.specs hat spec hmem

end Machine

namespace Compile

variable {m : Machine}

/-- A request for code of a marked prototype gives marked code, and leaves only such code
behind. -/
theorem marked_serve (h : m.Marked) (engine : EngineId) {proto : Prototype}
    (hproto : proto.IsMarked) (signature : Signature) :
    ((serve engine proto signature).run.run m).2.Marked ∧ ∀ spec,
      ((serve engine proto signature).run.run m).1 = .ok spec → spec.IsMarked := by
  cases hlookup : (m.cache proto.ref).lookup? signature with
  | some found =>
    rw [run_serve_of_some hlookup]
    refine ⟨h, ?_⟩
    rintro _ ⟨⟩
    exact h.lookup hlookup
  | none =>
    have hbegun : (begun m engine proto signature).Marked :=
      h.of_undisturbed (undisturbed_begun engine proto signature)
        (m.toList_caches_modifyCache proto.ref Cache.begun) fun _ _ hspec => .inl hspec
    obtain ⟨result, m', hrun, hproduces⟩ :=
      produces_compile (begun m engine proto signature) engine proto signature
    rw [run_serve_of_none hlookup, hrun]
    cases hproduces with
    | error hquiet hsame _ =>
      have hcaches : m'.caches.toList =
          (begun m engine proto signature).caches.toList.modify 0 id := by
        rw [hsame, List.modify_id]
      refine ⟨hbegun.of_undisturbed hquiet hcaches fun _ _ hspec => .inl hspec, ?_⟩
      rintro _ ⟨⟩
    | @code spec _ _ _ hquiet hsame _ =>
      have hspec : spec.IsMarked := ⟨proto, hproto, _, _, _, _, hrun⟩
      have hcaches : (m'.modifyCache proto.ref fun c => c.insert spec).caches.toList =
          (begun m engine proto signature).caches.toList.modify (proto.ref.id - 1)
            fun c => c.insert spec := by
        rw [Machine.toList_caches_modifyCache, hsame]
      refine ⟨hbegun.of_undisturbed (hquiet.trans (.modifyCache proto.ref _)) hcaches
        fun c other hother => ?_, ?_⟩
      · rcases List.mem_cons.mp hother with rfl | hold
        · exact .inr hspec
        · exact .inl hold
      · rintro _ ⟨⟩
        exact hspec

theorem marked_specialize (h : m.Marked) (engine : EngineId) {proto : Prototype}
    (hproto : proto.IsMarked) (signature : Signature) :
    ((specialize engine proto signature).run.run m).2.Marked ∧ ∀ spec,
      ((specialize engine proto signature).run.run m).1 = .ok spec → spec.IsMarked := by
  obtain ⟨hmarked, hspec⟩ := marked_serve h engine hproto signature
  rw [run_specialize]
  exact ⟨hmarked.congr rfl rfl rfl, hspec⟩

end Compile

/-! ## Linking -/

namespace Linking

/-- All code that a target runs is marked. -/
def Target.IsMarked (target : Target) : Prop :=
  ∀ spec, target.specialization? = some spec → spec.IsMarked

theorem safe_specialize (engine : EngineId) (ref : PrototypeRef) (args upvalues : List Ty)
    (truncate : Bool) :
    Safe (specialize engine ref args upvalues truncate) Specialization.IsMarked := by
  intro m hm
  cases hproto : m.program.prototype? ref with
  | none =>
    have hrun : (specialize engine ref args upvalues truncate).run.run m =
        (.error (.error (.compilation (.other ref.name))), m) := by
      unfold specialize
      rw [run_get_bind, hproto]
      rfl
    constructor
    · rwa [hrun]
    · rw [hrun]
      rintro _ ⟨⟩
    · rw [hrun]
      rintro _ ⟨⟩
      rfl
  | some proto =>
    have hrun := run_specialize engine hproto args upvalues truncate
    obtain ⟨hmarked, hspec⟩ := Compile.marked_specialize hm engine (hm.prototype hproto)
      (Signature.forPrototype m.shapes proto args upvalues truncate)
    generalize (Compile.specialize engine proto _).run.run m = r at hrun hmarked hspec
    obtain ⟨result, m'⟩ := r
    constructor
    · rwa [hrun]
    · rw [hrun]
      intro spec heq
      cases result with
      | error error => cases heq
      | ok found =>
        cases heq
        exact hspec _ rfl
    · rw [hrun]
      intro e heq
      cases result with
      | error error =>
        cases heq
        rfl
      | ok found => cases heq

theorem safe_publish (engine : EngineId) (id : SiteId) (plan : Plan) {link : Link}
    (hlink : link.target.IsMarked) :
    Safe (publish engine id plan link) fun outcome => outcome.target.IsMarked := by
  intro m hm
  have hrun := run_publish m engine id plan link
  obtain ⟨journal, hpublished⟩ := published_eq m engine id plan link
  constructor
  · rw [hrun, hpublished]
    refine ⟨hm.prototypes, hm.specs, fun {other link'} hat => ?_⟩
    rcases Sites.link_publish_cases hat with hold | rfl
    · exact hm.links hold
    · exact hlink
  · rw [hrun]
    rintro _ ⟨⟩
    exact hlink
  · rw [hrun]
    rintro _ ⟨⟩

theorem safe_linkClosure (engine : EngineId) (id : SiteId) (plan : Plan) (ref : FunctionRef)
    (closure : Closure) :
    Safe (linkClosure engine id plan ref closure) fun outcome => outcome.target.IsMarked := by
  unfold linkClosure
  refine .get fun m hm => ?_
  dsimp only
  split
  · refine (safe_specialize _ _ _ _ _).bind fun spec hspec => ?_
    unfold construct
    split
    · refine safe_publish engine id plan ?_
      rintro _ ⟨⟩
      exact hspec
    · exact .raise rfl
  · refine (safe_specialize _ _ _ _ _).bind fun spec hspec => ?_
    refine safe_publish engine id plan ?_
    rintro _ ⟨⟩
    exact hspec

theorem safe_count (engine : EngineId) (f : Stats → Stats) :
    Safe (Run.count engine f) fun _ => True :=
  .modify (fun _ => rfl) (fun _ => rfl) fun _ => rfl

theorem safe_note (event : Event) : Safe (Run.note event) fun _ => True :=
  .modify (fun _ => rfl) (fun _ => rfl) fun _ => rfl

/-- Host functions run no code of the machine. -/
theorem isMarked_host (ref : FunctionRef) (overload : Nat) :
    (Target.host ref overload).IsMarked := by
  rintro _ ⟨⟩

theorem safe_linkHost (engine : EngineId) (id : SiteId) (plan : Plan) (ref : FunctionRef)
    (overloads : List Overload) (args : List Value) :
    Safe (linkHost engine id plan ref overloads args) fun outcome => outcome.target.IsMarked := by
  unfold linkHost
  split
  · exact safe_publish engine id plan (isMarked_host ref _)
  · refine .get fun m hm => ?_
    split
    · exact (safe_count _ _).andThen fun _ => (safe_note _).andThen fun _ =>
        .pure (isMarked_host ref _)
    · exact .raise rfl

/-- The linker chooses marked code. -/
theorem safe_link (engine : EngineId) (id : SiteId) (callee : Value) (args : List Value) :
    Safe (link engine id callee args) fun outcome => outcome.target.IsMarked := by
  cases callee with
  | function ref =>
    unfold link
    refine .get fun m hm => ?_
    dsimp only
    cases m.heap.function? ref with
    | none => exact .raise rfl
    | some f =>
      cases f with
      | closure closure => exact safe_linkClosure engine id _ ref closure
      | host overloads => exact safe_linkHost engine id _ ref overloads args
      | foreign action =>
        refine safe_publish engine id _ ?_
        rintro _ ⟨⟩
  | _ => exact .raise rfl

theorem safe_enter (before : Ghost State) (engine : EngineId) (id : SiteId) (callee : Value)
    (args : List Value) :
    Safe (enter before engine id callee args) fun outcome => outcome.target.IsMarked := by
  intro m hm
  obtain ⟨hmarked, hpost, herror⟩ := safe_link engine id callee args m hm
  exact ⟨hmarked.congr rfl rfl rfl, hpost, herror⟩

end Linking

/-! ## Calls -/

/-- Requests are answered safely. -/
def Responder.IsSafe (again : Responder) : Prop :=
  ∀ request, Safe (again request) fun _ => True

/-- An attempt is not turned down because a captured local is not boxed. -/
def Attempt.IsSafe (attempt : Attempt) : Prop :=
  ∀ reason, attempt = .rejected reason → reason.isUnboxed = false

theorem Attempt.IsSafe.results {attempt : Attempt} (h : attempt.IsSafe) :
    Safe attempt.results fun _ => True := by
  cases attempt with
  | rejected reason => exact .raise (h reason rfl)
  | finished results => exact .pure trivial

theorem Attempt.isSafe_finished (results : List Value) : (Attempt.finished results).IsSafe := by
  rintro _ ⟨⟩

section Calls

variable {again : Responder} (hagain : again.IsSafe) (rounds : Nat)
include hagain

/-- A marked routine runs safely: its frame keeps those locals in cells that its code captures. -/
theorem safe_run {spec : Specialization} (h : spec.IsMarked) (engine : EngineId)
    (cells : List CellId) (args : List Value) :
    Safe (spec.run again rounds engine cells args) fun _ => True := by
  unfold Specialization.run
  refine .heap fun heap => ?_
  have hcaller : Caller.IsSafe fun engine site callee args =>
      again (.site engine site callee args) :=
    fun engine site callee args => hagain _
  have hbody := h.blockGuarded rounds hcaller (spec.boxes_frame engine cells args heap)
  exact .andThen (.setHeap _) fun _ => hbody.andThen fun _ => .pure trivial

theorem safe_enter {spec : Specialization} (h : spec.IsMarked) (engine : EngineId)
    (cells : List CellId) (args : List Value) :
    Safe (spec.enter again rounds engine cells args) Attempt.IsSafe := by
  unfold Specialization.enter
  refine .get fun m _ => ?_
  split
  · next reason hcheck =>
    refine .pure ?_
    rintro _ ⟨⟩
    exact isUnboxed_of_isCodeFault (Specialization.isCodeFault_check hcheck)
  · exact (safe_run hagain rounds h engine cells args).andThen fun results =>
      .pure (Attempt.isSafe_finished results)

theorem safe_callValue (callee : Value) (args : List Value) :
    Safe (callValue again callee args) fun _ => True := by
  unfold callValue
  split
  · exact hagain _
  · exact .raise rfl

/-- Code of the host raises no error that a captured local is not boxed, and passes none on. -/
theorem safe_perform (code : HostCode) : Safe (perform again code) fun _ => True := by
  induction code with
  | done results => exact .pure trivial
  | raise fault => exact .raise rfl
  | call callee args next handles handler ihnext ihhandler =>
    rw [perform]
    refine (safe_callValue hagain callee args).outcome.bind fun outcome herror => ?_
    cases outcome with
    | ok results => exact ihnext results
    | error e =>
      dsimp only
      split
      · exact ihhandler e
      · exact .raise (herror e rfl)
  | makeTable next ih => exact .andThen (.newTable _) ih
  | read target key next ih =>
    exact .andThen (.heap fun _ => .ofExcept fun _ he => isCodeFault_indexValue he) ih
  | write target key v next ih =>
    exact .andThen (.heap fun _ => .andThen (.ofExcept fun _ he => isCodeFault_storeIndex he)
      fun _ => .setHeap _) fun _ => ih
  | global engine name next ih => exact .get fun _ _ => ih _
  | setGlobal engine name v next ih =>
    refine .andThen (.modify ?_ ?_ ?_) fun _ => ih
    all_goals exact fun _ => rfl

theorem safe_runOverload (ref : FunctionRef) (overloads : List Overload) (index : Nat)
    (args : List Value) : Safe (runOverload again ref overloads index args) fun _ => True := by
  unfold runOverload
  split
  · exact safe_perform hagain _
  · exact .raise rfl

theorem safe_runHost (ref : FunctionRef) (overloads : List Overload) (args : List Value) :
    Safe (runHost again ref overloads args) fun _ => True := by
  unfold runHost
  refine .get fun m _ => ?_
  split
  · exact safe_runOverload hagain ref overloads _ args
  · exact .raise rfl

theorem safe_runClosure (engine : EngineId) (closure : Closure) (args : List Value) :
    Safe (runClosure again rounds engine closure args) fun _ => True := by
  unfold runClosure
  refine .get fun m _ => (Linking.safe_specialize _ _ _ _ _).bind fun spec hspec => ?_
  exact (safe_enter hagain rounds hspec engine closure.cells args).bind fun _ hattempt =>
    hattempt.results

theorem safe_runDirect (ref : FunctionRef) (args : List Value) :
    Safe (runDirect again rounds ref args) fun _ => True := by
  unfold runDirect
  refine .get fun m _ => ?_
  split
  · split
    · exact safe_runClosure hagain rounds _ _ args
    · exact .raise rfl
  · exact safe_runHost hagain ref _ args
  · exact safe_perform hagain _
  · exact .raise rfl

theorem safe_runEngine (engine : EngineId) (callee : Value) (args : List Value) :
    Safe (runEngine again rounds engine callee args) fun _ => True := by
  cases callee with
  | function ref =>
    unfold runEngine
    refine .heap fun heap => ?_
    split
    · exact safe_runClosure hagain rounds engine _ args
    · exact safe_runDirect hagain rounds ref args
  | _ => exact .raise rfl

theorem safe_target {target : Linking.Target} (h : target.IsMarked) (engine : EngineId)
    (callee : Value) (args : List Value) :
    Safe (target.run again rounds engine callee args) Attempt.IsSafe := by
  cases target with
  | «instance» spec cells => exact safe_enter hagain rounds (h spec rfl) engine cells args
  | «prototype» spec =>
    rw [Linking.Target.run]
    refine .heap fun heap => ?_
    split
    · exact safe_enter hagain rounds (h spec rfl) engine _ args
    · refine .pure ?_
      rintro _ ⟨⟩
      rfl
  | host ref index =>
    rw [Linking.Target.run]
    refine .get fun m _ => ?_
    split
    · exact .raise rfl
    · split
      · exact (safe_runOverload hagain ref _ index args).andThen fun results =>
          .pure (Attempt.isSafe_finished results)
      · refine .pure ?_
        rintro _ ⟨⟩
        rfl
  | foreign ref =>
    rw [Linking.Target.run]
    exact (safe_runDirect hagain rounds ref args).andThen fun results =>
      .pure (Attempt.isSafe_finished results)

theorem safe_relink (before : Ghost State) (engine : EngineId) (id : SiteId) (callee : Value)
    (args : List Value) :
    Safe (Linking.relink again rounds before engine id callee args) fun _ => True :=
  (Linking.safe_enter before engine id callee args).bind fun _ houtcome =>
    (safe_target hagain rounds houtcome engine callee args).bind fun _ hattempt =>
      hattempt.results

/-- A call goes through the link in place, whose code is marked, or through a new one. -/
theorem safe_proceed (engine : EngineId) (id : SiteId) (callee : Value) (args : List Value) :
    Safe (Linking.proceed again rounds engine id callee args) fun _ => True := by
  unfold Linking.proceed
  refine .get fun m hm => ?_
  have hrelink := safe_relink hagain rounds (.of m) engine id callee args
  cases hlink : (m.sites.get id).link with
  | none => exact hrelink
  | some link =>
    dsimp only
    split
    · refine (safe_target hagain rounds (hm.links hlink) engine callee args).bind
        fun attempt _ => ?_
      cases attempt with
      | finished results => exact .pure trivial
      | rejected reason =>
        exact (Linking.safe_count _ _).andThen fun _ =>
          (Linking.safe_note _).andThen fun _ => hrelink
    · exact (Linking.safe_count _ _).andThen fun _ => (Linking.safe_note _).andThen fun _ => hrelink

/-- **The step.** A request is answered safely, if those that arise on the way are. -/
theorem safe_respond : Responder.IsSafe (respond again rounds) := by
  intro request
  cases request with
  | engine engine callee args => exact safe_runEngine hagain rounds engine callee args
  | direct ref args => exact safe_runDirect hagain rounds ref args
  | site engine id callee args =>
    refine .andThen (.modify ?_ ?_ ?_) fun _ => safe_proceed hagain rounds engine id callee args
    all_goals exact fun _ => rfl

end Calls

/-- **The run.** Every request is answered safely, whatever the depth of calls. -/
theorem safe_answer (depth : Nat) : Responder.IsSafe (answer depth) := by
  induction depth with
  | zero => exact fun _ => .exhausted
  | succ depth ih => exact safe_respond ih depth

/-! ## What a host does -/

theorem Machine.marked_empty : Machine.empty.Marked := by
  constructor
  · intro index proto hproto
    cases hproto
  · intro index cache hcache
    cases hcache
  · intro id link hlink
    cases id <;> cases hlink

/-- **The step.** Every operation leaves a machine marked. -/
theorem Operation.marked {m : Machine} (h : m.Marked) (op : Operation) : (op.apply m).Marked := by
  cases op with
  | addPrototype name params locals upvalues body =>
    constructor
    · intro index proto hproto
      change (m.program.prototypes.push _)[index]? = some proto at hproto
      rw [Array.getElem?_push] at hproto
      split at hproto
      · cases hproto
        exact Prototype.isMarked_ofParts _ _ _ _ _
      · exact h.prototypes hproto
    · intro index cache hcache spec hspec
      change (m.caches.push .empty)[index]? = some cache at hcache
      rw [Array.getElem?_push] at hcache
      split at hcache
      · cases hcache
        cases hspec
      · exact h.specs hcache spec hspec
    · exact h.links
  | addSite static truncate =>
    have hadds := Linking.Sites.adds_add m.sites static truncate
    exact ⟨h.prototypes, h.specs, fun hlink => h.links (hadds.link_eq hlink)⟩
  | specialize engine proto args upvalues truncate =>
    exact (Linking.safe_specialize engine proto args upvalues truncate m h).marked
  | link engine site callee args => exact (Linking.safe_link engine site callee args m h).marked
  | call depth request => exact (safe_answer depth request m h).marked
  | addTable shape => cases shape <;> exact h.congr rfl rfl rfl
  | _ => exact h.congr rfl rfl rfl

namespace Deed

variable {m : Machine}

theorem marked (h : m.Marked) {d : Deed} (hvalid : d.Valid m) : (d.apply m).Marked := by
  cases d with
  | operate op => exact op.marked h
  | fetch engine ref signature =>
    rw [apply]
    split
    · next hproto => exact (Compile.marked_specialize h engine (h.prototype hproto) signature).1
    · exact h
  | enter depth engine spec cells args =>
    obtain ⟨-, cache, hcache, hspec⟩ := hvalid
    obtain ⟨index, hat⟩ := Array.getElem?_of_mem hcache
    exact (safe_enter (safe_answer depth) depth (h.specs hat spec hspec) engine cells args
      m h).marked

/-- **The run.** Whatever a host does, all code comes from prototypes with exact marks. -/
theorem marked_run {deeds : List Deed} (hvalid : AllValid m deeds) (h : m.Marked) :
    (run m deeds).Marked := by
  induction deeds generalizing m with
  | nil => exact h
  | cons d deeds ih => exact ih hvalid.2 (marked h hvalid.1)

end Deed

/-! ## The frames of a routine -/

/-- In every frame that a routine passes through, a local is kept in a cell exactly if it is
marked. -/
theorem Specialization.boxes_of_reaches {spec : Specialization} {proto : Prototype}
    (h : spec.CompiledFrom proto) {caller : Caller} {rounds : Nat} {engine : EngineId}
    {cells : List CellId} {args : List Value} {heap : Heap} {frame : Frame}
    (hreaches : Step.Reaches caller rounds spec.body (spec.frame engine cells args heap).1 frame) :
    frame.boxes = proto.marks := by
  obtain ⟨m, home, signature, m', hrun⟩ := h
  rw [hreaches.alters.boxes, spec.boxes_frame,
    (Compile.delivers_compile home proto signature hrun).1]

/-- A statement that does not name a local outside cells leaves it as it was, whatever else
happens meanwhile. -/
theorem read_eq_of_exec {caller : Caller} {rounds : Nat} {s : Step} {frame frame' : Frame}
    {flow : Flow} {m m' : Machine} {slot : Nat}
    (hrun : (exec caller rounds s frame).run.run m = (.ok (flow, frame'), m'))
    (hplain : frame.boxes[slot]? = some false) (hslot : slot ∉ s.targets) :
    frame'.read m'.heap slot = frame.read m.heap slot := by
  have halters := confined_exec caller rounds s frame hrun
  have hsame : frame'.read m'.heap slot = frame.read m'.heap slot := by
    unfold Frame.read
    rw [halters.others slot hslot]
  rw [hsame]
  exact Frame.read_eq_of_boxes hplain m'.heap m.heap

/-- **Captured locals are kept in cells**, and only those.

The marks of a prototype are exact: a local is marked if and only if a function literal somewhere
in the body lists it.  In every frame that a routine compiled from the prototype passes through,
a local is kept in a cell if and only if it is marked, so each literal of the body can capture what
it lists; and a local that is not marked changes only at statements that declare or assign it.  So
whatever a host does, no call and no run of a routine ends in the error that a captured local is
not boxed. -/
theorem captured_iff_boxed :
    (∀ (ref : PrototypeRef) (params locals : List String) (upvalues : List UpvalueTemplate)
      (body : List Stmt), let proto := Prototype.ofParts ref params locals upvalues body
      (∀ {slot : Nat} {decl : LocalDecl}, proto.locals[slot]? = some decl →
        (decl.captured = true ↔ Stmt.CapturesSlot body slot)) ∧
      ∀ {m m' : Machine} {engine : EngineId} {signature : Signature} {spec : Specialization},
        (Compile.compile engine proto signature).run.run m = (.ok spec, m') →
        ∀ {caller : Caller} {rounds : Nat} {home : EngineId} {cells : List CellId}
          {args : List Value} {heap : Heap} {frame : Frame},
          Step.Reaches caller rounds spec.body (spec.frame home cells args heap).1 frame →
          (∀ slot : Nat, frame.locals[slot]?.map Variable.isShared =
            proto.locals[slot]?.map LocalDecl.captured) ∧
          (∀ {slot : Nat}, Stmt.CapturesSlot body slot →
            ∃ cell, frame.capture (.slot slot) = .ok cell) ∧
          ∀ {slot : Nat} {decl : LocalDecl}, proto.locals[slot]? = some decl →
            decl.captured = false → ∀ {s : Step} {flow : Flow} {frame' : Frame} {m₁ m₂ : Machine},
            (exec caller rounds s frame).run.run m₁ = (.ok (flow, frame'), m₂) →
            slot ∉ s.targets → frame'.read m₂.heap slot = frame.read m₁.heap slot) ∧
    ∀ {deeds : List Deed}, Deed.AllValid .empty deeds → let m := Deed.run .empty deeds
      (∀ (depth : Nat) (request : Request) (slot : Nat),
        ((answer depth request).run.run m).1 ≠ .error (.error (.unboxedCapture slot))) ∧
      ∀ cache ∈ m.caches, ∀ spec ∈ cache.entries,
        ∀ (depth : Nat) (engine : EngineId) (cells : List CellId) (args : List Value) (slot : Nat),
          ((spec.enter (answer depth) depth engine cells args).run.run m).1 ≠
            .error (.error (.unboxedCapture slot)) := by
  constructor
  · intro ref params locals upvalues body proto
    have hmarked : proto.IsMarked := Prototype.isMarked_ofParts ref params locals upvalues body
    refine ⟨hmarked, fun hcompile => ?_⟩
    intro caller rounds home cells args heap frame hreaches
    have hboxes : frame.boxes = proto.marks :=
      Specialization.boxes_of_reaches ⟨_, _, _, _, hcompile⟩ hreaches
    have hrange := (Compile.delivers_compile _ proto _ hcompile).2.1
    refine ⟨fun slot => ?_, fun hslot => ?_, fun hdecl hplain => ?_⟩
    · rw [← Prototype.getElem?_marks, ← hboxes, Frame.boxes, List.getElem?_map,
        Array.getElem?_toList]
    · apply Frame.exists_capture_of_boxes
      rw [hboxes]
      exact hmarked.covers hrange _ (Stmt.mem_blockCaptures_iff.mpr hslot)
    · intro s flow frame' m₁ m₂ hrun hslot
      refine read_eq_of_exec hrun ?_ hslot
      rw [hboxes, Prototype.getElem?_marks, hdecl, Option.map_some, hplain]
  · intro deeds hvalid m
    have hm : m.Marked := Deed.marked_run hvalid Machine.marked_empty
    constructor
    · intro depth request slot heq
      cases (safe_answer depth request m hm).error heq
    · intro cache hcache spec hspec depth engine cells args slot heq
      obtain ⟨index, hat⟩ := Array.getElem?_of_mem hcache
      have hsafe := safe_enter (safe_answer depth) depth (hm.specs hat spec hspec) engine cells args
      cases (hsafe m hm).error heq

/-- A function that keeps its argument in a variable, captures the variable in a function literal,
and changes it before it calls the literal. -/
def Stmt.shareVariable : List Stmt :=
  [.declare 1 (some (.slot 0)), .declare 2 (some (.function ⟨1, "get"⟩ [.slot 1])),
    .assign 1 (.literal (.int 7)), .ret [.call (.slot 2) []]]

/-- A host makes this function and the one that the literal stands for, and an engine. -/
def Deed.shareVariable : List Deed :=
  [.operate (.addPrototype "get" [] [] [⟨"x", none, false⟩] [.ret [.upvalue 0]]),
    .operate (.addPrototype "make" ["a"] ["x", "f"] [] Stmt.shareVariable),
    .operate (.addEngine .default),
    .operate (.addFunction "make" (.closure ⟨⟨2, "make"⟩, [], 0⟩))]

theorem Deed.allValid_shareVariable : AllValid .empty shareVariable := by
  refine ⟨trivial, trivial, trivial, ?_, trivial⟩
  rintro _ ⟨⟩
  show 0 < _
  decide +kernel

/-- Only the variable is marked.  The function can be compiled and its first frame captures the
variable; the parameter is kept outside cells and outlives an assignment to the variable.  A call
gives the value that the variable was changed to. -/
theorem captured_iff_boxed_shareVariable :
    let m := Deed.run .empty Deed.shareVariable
    let proto := Prototype.ofParts ⟨2, "make"⟩ ["a"] ["x", "f"] [] Stmt.shareVariable
    proto.marks = [false, true, false] ∧ Stmt.CapturesSlot Stmt.shareVariable 1 ∧
    (∃ spec m', (Compile.compile 0 proto ⟨[.integer], [], false⟩).run.run m = (.ok spec, m') ∧
      let frame := (spec.frame 0 [] [.int 5] m.heap).1
      (∃ cell, frame.capture (.slot 1) = .ok cell) ∧
      ∀ (caller : Caller) (rounds : Nat), ∃ frame' m₂,
        (exec caller rounds (.assign 1 .nil) frame).run.run m = (.ok (.normal, frame'), m₂) ∧
          frame'.read m₂.heap 0 = frame.read m.heap 0) ∧
    ((answer 3 (.direct ⟨0, "make"⟩ [.int 5])).run.run m).1 = .ok [.int 7] ∧
    ∀ (depth : Nat) (request : Request) (slot : Nat),
      ((answer depth request).run.run m).1 ≠ .error (.error (.unboxedCapture slot)) := by
  intro m proto
  have hmarks : proto.marks = [false, true, false] := by decide +kernel
  have hcaptures : Stmt.CapturesSlot Stmt.shareVariable 1 :=
    Stmt.mem_blockCaptures_iff.mp (by decide)
  have hcompile : ∃ spec m',
      (Compile.compile 0 proto ⟨[.integer], [], false⟩).run.run m = (.ok spec, m') := by
    have hok : ((Compile.compile 0 proto ⟨[.integer], [], false⟩).run.run m).1.toOption.isSome =
        true := by decide +kernel
    generalize (Compile.compile 0 proto ⟨[.integer], [], false⟩).run.run m = r at hok
    obtain ⟨result, m'⟩ := r
    cases result with
    | error error => cases hok
    | ok spec => exact ⟨spec, m', rfl⟩
  obtain ⟨spec, m', hrun⟩ := hcompile
  refine ⟨hmarks, hcaptures, ⟨spec, m', hrun, ?_⟩, by decide +kernel,
    (captured_iff_boxed.2 Deed.allValid_shareVariable).1⟩
  intro frame
  have hroutine (caller : Caller) (rounds : Nat) :=
    (captured_iff_boxed.1 ⟨2, "make"⟩ ["a"] ["x", "f"] [] Stmt.shareVariable).2 hrun
      (.start : Step.Reaches caller rounds spec.body frame frame)
  have hplain : proto.locals[0]? = some ⟨"a", false⟩ := by decide +kernel
  refine ⟨(hroutine (fun _ _ _ _ => pure []) 0).2.1 hcaptures, fun caller rounds => ?_⟩
  obtain ⟨frame', m₂, hassign⟩ : ∃ frame' m₂,
      (exec caller rounds (.assign 1 .nil) frame).run.run m = (.ok (.normal, frame'), m₂) :=
    ⟨_, _, rfl⟩
  exact ⟨frame', m₂, hassign, (hroutine caller rounds).2.2 hplain rfl hassign (by decide)⟩

end AdaptiveScript
