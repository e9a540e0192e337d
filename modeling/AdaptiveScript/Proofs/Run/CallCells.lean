import AdaptiveScript.Proofs.Run.Cells
import AdaptiveScript.Proofs.Run.Deeds

/-!
# Cells in calls

Calls lose no cells and pass on none that do not exist (`keepsCells_answer`).  A routine gets its
upvalues from the closure that is called, or from the link of the call site; the linker puts the
cells of a closure into a link; and all these are held by the machine, so that nothing has to be
asked of a request.

A host brings cells of its own into a machine in two ways only: when it makes a closure, and when
it runs a specialization over cells that it chose.  If these exist, then so do all cells that
closures and call sites hold, after everything that a host can do (`Deed.cellsExist_run`).
-/

namespace AdaptiveScript

/-! ## Linking -/

namespace Linking

theorem undisturbed_specialize (m : Machine) (engine : EngineId) (ref : PrototypeRef)
    (args upvalues : List Ty) (truncate : Bool) :
    m.Undisturbed ((specialize engine ref args upvalues truncate).run.run m).2 := by
  cases hproto : m.program.prototype? ref with
  | none =>
    unfold specialize
    rw [run_get_bind, hproto]
    exact .refl m
  | some proto =>
    rw [run_specialize engine hproto]
    cases hrun : (Compile.specialize engine proto
        (Signature.forPrototype m.shapes proto args upvalues truncate)).run.run m with
    | mk result m' => exact (Machine.serves_of_specialize hrun).1.undisturbed

section Link

variable {refs : CellId → Prop}

theorem keepsCells_specialize (engine : EngineId) (ref : PrototypeRef) (args upvalues : List Ty)
    (truncate : Bool) : KeepsCells refs (specialize engine ref args upvalues truncate) := by
  intro m
  have hquiet := undisturbed_specialize m engine ref args upvalues truncate
  exact ⟨Nat.le_of_eq (by rw [hquiet.heap]), fun hm _ => hm.of_undisturbed hquiet⟩

/-- A link may be published if the cells that it binds were given. -/
theorem keepsCells_publish (engine : EngineId) (id : SiteId) (plan : Plan) (link : Link)
    (hlink : ∀ cell, link.target.Binds cell → refs cell) :
    KeepsCells refs (publish engine id plan link) := by
  intro m
  refine ⟨?_, fun hm hgiven => ?_⟩
  · obtain ⟨journal, hpublished⟩ := published_eq m engine id plan link
    rw [run_publish, hpublished]
    exact Nat.le_refl _
  · rw [run_publish]
    exact hm.published engine id plan fun cell hcell => hgiven (hlink cell hcell)

theorem keepsCells_linkClosure (engine : EngineId) (id : SiteId) (plan : Plan) (ref : FunctionRef)
    (closure : Closure) :
    KeepsCells (· ∈ closure.cells) (linkClosure engine id plan ref closure) := by
  unfold linkClosure
  refine .get fun m => ?_
  dsimp only
  split
  · refine (keepsCells_specialize _ _ _ _ _).bind fun spec => ?_
    unfold construct
    split
    · exact keepsCells_publish engine id plan _ fun _ hcell => hcell
    · exact .throw _
  · refine (keepsCells_specialize _ _ _ _ _).bind fun spec => ?_
    exact keepsCells_publish engine id plan _ fun _ hcell => hcell.elim

theorem keepsCells_linkHost (engine : EngineId) (id : SiteId) (plan : Plan) (ref : FunctionRef)
    (overloads : List Overload) (args : List Value) :
    KeepsCells refs (linkHost engine id plan ref overloads args) := by
  unfold linkHost
  split
  · exact keepsCells_publish engine id plan _ fun _ hcell => hcell.elim
  · refine .get fun m => ?_
    split
    · exact .bind (.count _ _) fun _ => .bind (.note _) fun _ => .pure _
    · exact .throw _

theorem keepsCells_link (engine : EngineId) (id : SiteId) (callee : Value) (args : List Value) :
    KeepsCells refs (link engine id callee args) := by
  cases callee with
  | function ref =>
    unfold link
    refine .look fun m => ?_
    dsimp only
    split
    · next closure hclosure =>
      exact (keepsCells_linkClosure engine id _ ref closure m).of_exist fun hm _ =>
        hm.closures (Heap.closureOf?_eq_some.2 hclosure)
    · exact keepsCells_linkHost engine id _ ref _ args m
    · exact keepsCells_publish engine id _ ⟨_, .foreign ref⟩ (fun _ hcell => hcell.elim) m
    · exact KeepsCells.throw _ m
  | _ => exact .throw _

theorem keepsCells_enter (before : Ghost State) (engine : EngineId) (id : SiteId) (callee : Value)
    (args : List Value) : KeepsCells refs (enter before engine id callee args) := by
  intro m
  have hlink : KeepsFrom refs m (link engine id callee args) :=
    keepsCells_link engine id callee args m
  refine ⟨hlink.cells_le, fun hm hgiven => ?_⟩
  exact (hlink.exist hm hgiven).of_same rfl (fun _ _ hat => hat) (Nat.le_refl _)

end Link

/-! ### What the linker chooses -/

theorem delivers_publish (engine : EngineId) (id : SiteId) (plan : Plan) (link : Link) :
    Delivers (publish engine id plan link) fun outcome => outcome.target = link.target := by
  intro m outcome m' hrun
  rw [run_publish] at hrun
  cases hrun
  rfl

theorem delivers_linkClosure (engine : EngineId) (id : SiteId) (plan : Plan) (ref : FunctionRef)
    (closure : Closure) : Delivers (linkClosure engine id plan ref closure) fun outcome =>
      ∀ cell, outcome.target.Binds cell → cell ∈ closure.cells := by
  unfold linkClosure
  refine .andThen fun m => ?_
  dsimp only
  split
  · refine .andThen fun spec => ?_
    unfold construct
    split
    · refine (delivers_publish engine id plan _).mono fun outcome htarget cell hcell => ?_
      rw [htarget] at hcell
      exact hcell
    · exact .throw
  · refine .andThen fun spec => (delivers_publish engine id plan _).mono ?_
    intro outcome htarget cell hcell
    rw [htarget] at hcell
    exact hcell.elim

theorem delivers_linkHost (engine : EngineId) (id : SiteId) (plan : Plan) (ref : FunctionRef)
    (overloads : List Overload) (args : List Value) :
    Delivers (linkHost engine id plan ref overloads args) fun outcome =>
      ∀ cell, ¬ outcome.target.Binds cell := by
  unfold linkHost
  split
  · refine (delivers_publish engine id plan _).mono fun outcome htarget cell hcell => ?_
    rw [htarget] at hcell
    exact hcell
  · refine .andThen fun m => ?_
    split
    · exact .andThen fun _ => .andThen fun _ => .pure fun _ hcell => hcell
    · exact .throw

/-- The linker binds no cells but those of the callee. -/
theorem exists_of_run_enter {m m' : Machine} {before : Ghost State} {engine : EngineId}
    {id : SiteId} {callee : Value} {args : List Value} {outcome : Outcome} {cell : CellId}
    (hrun : (enter before engine id callee args).run.run m = (.ok outcome, m'))
    (hcell : outcome.target.Binds cell) :
    ∃ c, m.heap.closure? callee = some c ∧ cell ∈ c.cells := by
  have hok : ((link engine id callee args).run.run m).1 = .ok outcome := congrArg Prod.fst hrun
  replace hrun : (link engine id callee args).run.run m =
      (.ok outcome, ((link engine id callee args).run.run m).2) := Prod.ext hok rfl
  cases callee with
  | function ref =>
    unfold link at hrun
    rw [run_get_bind] at hrun
    dsimp only at hrun
    split at hrun
    · next closure hclosure =>
      exact ⟨closure, Heap.closureOf?_eq_some.2 hclosure,
        delivers_linkClosure _ _ _ _ _ hrun cell hcell⟩
    · exact absurd hcell (delivers_linkHost _ _ _ _ _ _ hrun cell)
    · rw [delivers_publish _ _ _ _ hrun] at hcell
      exact hcell.elim
    · cases hrun
  | _ => cases hrun

end Linking

/-! ## Calls -/

/-- Answers keep all cells. -/
def Responder.KeepsCells (again : Responder) : Prop :=
  ∀ request, AdaptiveScript.KeepsCells (fun _ => False) (again request)

theorem Attempt.keepsCells_results {refs : CellId → Prop} (attempt : Attempt) :
    KeepsCells refs attempt.results := by
  cases attempt with
  | rejected reason => exact .throw _
  | finished results => exact .pure _

section Calls

variable {again : Responder} (hagain : again.KeepsCells) (rounds : Nat) {refs : CellId → Prop}
include hagain

/-- A routine is entered with a frame that refers to its upvalues and to new cells. -/
theorem keepsCells_run (engine : EngineId) (spec : Specialization) (cells : List CellId)
    (args : List Value) : KeepsCells (· ∈ cells) (spec.run again rounds engine cells args) := by
  have hcaller : Caller.KeepsCells fun engine site callee args =>
      again (.site engine site callee args) :=
    fun engine site callee args => hagain _
  unfold Specialization.run
  refine .look fun m => ?_
  dsimp only
  have hopen : KeepsFrom (· ∈ cells) m (Run.setHeap (spec.frame engine cells args m.heap).2) :=
    .of_same (Frame.cellsOnly_openLocals _ m.heap).functions (fun _ _ hlink => hlink)
      (Frame.size_cells_openLocals _ m.heap)
  refine hopen.bind (fun _ m' _ => (lives_execBlock hcaller rounds spec.body _).keeps.bind
    (fun out => .pure _) m') ?_
  rintro _ _ ⟨⟩ _ hgiven
  exact Frame.within_iff.1 (spec.within_frame engine args hgiven)

theorem keepsCells_enter (engine : EngineId) (spec : Specialization) (cells : List CellId)
    (args : List Value) : KeepsCells (· ∈ cells) (spec.enter again rounds engine cells args) := by
  unfold Specialization.enter
  refine .get fun m => ?_
  split
  · exact .pure _
  · exact (keepsCells_run hagain rounds engine spec cells args).bind fun _ => .pure _

omit hagain in
theorem keepsCells_writeKey (target key v : Value) :
    KeepsCells refs (Run.writeKey target key v) := by
  refine .look fun m => ?_
  cases hstore : storeIndex m.heap target key v with
  | error e => exact KeepsCells.throw _ m
  | ok heap =>
    obtain ⟨ref, t, rfl⟩ := exists_of_storeIndex hstore
    exact .of_same rfl (fun _ _ hlink => hlink) (Nat.le_refl _)

theorem keepsCells_callValue (callee : Value) (args : List Value) :
    KeepsCells refs (callValue again callee args) := by
  unfold callValue
  split
  · exact (hagain _).of_none
  · exact .throw _

/-- Code of the host keeps all cells: it is never given one. -/
theorem keepsCells_perform (code : HostCode) : KeepsCells refs (perform again code) := by
  induction code with
  | done results => exact .pure _
  | raise fault => exact .throw _
  | call callee args next handles handler ihnext ihhandler =>
    rw [perform]
    refine (keepsCells_callValue hagain callee args).outcome.bind fun outcome => ?_
    cases outcome with
    | ok results => exact ihnext results
    | error e =>
      dsimp only
      split
      · exact ihhandler e
      · exact .throw _
  | makeTable next ih => exact .bind (.newTable _) ih
  | read target key next ih => exact .bind (.heap fun _ => .ofExcept _) ih
  | write target key v next ih => exact .bind (keepsCells_writeKey target key v) fun _ => ih
  | global engine name next ih => exact .get fun _ => ih _
  | setGlobal engine name v next ih =>
    exact .bind (.modify (fun _ => rfl) fun _ => rfl) fun _ => ih

theorem keepsCells_runOverload (ref : FunctionRef) (overloads : List Overload) (index : Nat)
    (args : List Value) : KeepsCells refs (runOverload again ref overloads index args) := by
  unfold runOverload
  split
  · exact keepsCells_perform hagain _
  · exact .throw _

theorem keepsCells_runHost (ref : FunctionRef) (overloads : List Overload) (args : List Value) :
    KeepsCells refs (runHost again ref overloads args) := by
  unfold runHost
  refine .get fun m => ?_
  split
  · exact keepsCells_runOverload hagain ref overloads _ args
  · exact .throw _

theorem keepsCells_runClosure (engine : EngineId) (closure : Closure) (args : List Value) :
    KeepsCells (· ∈ closure.cells) (runClosure again rounds engine closure args) := by
  unfold runClosure
  exact .get fun m => (Linking.keepsCells_specialize _ _ _ _ _).bind fun spec =>
    (keepsCells_enter hagain rounds engine spec closure.cells args).bind fun attempt =>
      attempt.keepsCells_results

theorem keepsCells_runDirect (ref : FunctionRef) (args : List Value) :
    KeepsCells refs (runDirect again rounds ref args) := by
  unfold runDirect
  refine .look fun m => ?_
  split
  · next closure hclosure =>
    split
    · exact (keepsCells_runClosure hagain rounds _ closure args m).of_exist fun hm _ =>
        hm.closures (Heap.closureOf?_eq_some.2 hclosure)
    · exact KeepsCells.throw _ m
  · exact keepsCells_runHost hagain ref _ args m
  · exact keepsCells_perform hagain _ m
  · exact KeepsCells.throw _ m

theorem keepsCells_runEngine (engine : EngineId) (callee : Value) (args : List Value) :
    KeepsCells refs (runEngine again rounds engine callee args) := by
  cases callee with
  | function ref =>
    unfold runEngine
    refine .look fun m => ?_
    split
    · next closure hclosure =>
      exact (keepsCells_runClosure hagain rounds engine closure args m).of_exist fun hm _ =>
        hm.closures hclosure
    · exact keepsCells_runDirect hagain rounds ref args m
  | _ => exact .throw _

theorem keepsCells_target (target : Linking.Target) (engine : EngineId) (callee : Value)
    (args : List Value) :
    KeepsCells target.Binds (target.run again rounds engine callee args) := by
  cases target with
  | «instance» spec cells => exact keepsCells_enter hagain rounds engine spec cells args
  | «prototype» spec =>
    rw [Linking.Target.run]
    refine .look fun m => ?_
    split
    · next closure hclosure =>
      exact ((keepsCells_enter hagain rounds engine spec closure.cells args) m).of_exist fun hm _ =>
        hm.closure? hclosure
    · exact KeepsCells.pure _ m
  | host ref index =>
    rw [Linking.Target.run]
    refine .get fun m => ?_
    split
    · exact .throw _
    · split
      · exact (keepsCells_runOverload hagain ref _ index args).bind fun _ => .pure _
      · exact .pure _
  | foreign ref =>
    rw [Linking.Target.run]
    exact (keepsCells_runDirect hagain rounds ref args).bind fun _ => .pure _

theorem keepsCells_relink (before : Ghost State) (engine : EngineId) (id : SiteId)
    (callee : Value) (args : List Value) :
    KeepsCells refs (Linking.relink again rounds before engine id callee args) := by
  have hlink : KeepsCells refs (Linking.enter before engine id callee args) :=
    Linking.keepsCells_enter before engine id callee args
  intro m
  refine (hlink m).bind
    (fun outcome m' _ => (keepsCells_target hagain rounds outcome.target engine callee args).bind
      (fun attempt => attempt.keepsCells_results) m') ?_
  intro outcome m' hrun hm _ cell hcell
  obtain ⟨c, hc, hmem⟩ := Linking.exists_of_run_enter hrun hcell
  exact (hm.closure? hc).mono (hlink.le hrun) hmem

theorem keepsCells_proceed (engine : EngineId) (id : SiteId) (callee : Value) (args : List Value) :
    KeepsCells refs (Linking.proceed again rounds engine id callee args) := by
  unfold Linking.proceed
  refine .look fun m => ?_
  have hrelink {refs : CellId → Prop} :
      KeepsCells refs (Linking.relink again rounds (.of m) engine id callee args) :=
    keepsCells_relink hagain rounds (.of m) engine id callee args
  split
  · exact hrelink m
  · next link hlink =>
    split
    · refine ((keepsCells_target hagain rounds link.target engine callee args).bind
        (fun attempt => ?_) m).of_exist fun hm _ => hm.links hlink
      cases attempt with
      | finished results => exact .pure _
      | rejected reason => exact .bind (.count _ _) fun _ => .bind (.note _) fun _ => hrelink
    · exact KeepsCells.bind (.count _ _) (fun _ => .bind (.note _) fun _ => hrelink) m

theorem keepsCells_respond : Responder.KeepsCells (respond again rounds) := by
  intro request
  cases request with
  | engine engine callee args => exact keepsCells_runEngine hagain rounds engine callee args
  | direct ref args => exact keepsCells_runDirect hagain rounds ref args
  | site engine id callee args =>
    exact .bind (.modify (fun _ => rfl) fun _ => rfl) fun _ =>
      keepsCells_proceed hagain rounds engine id callee args

end Calls

/-- No cell is lost in answering a request, and none is made up, whatever the depth of calls. -/
theorem keepsCells_answer (depth : Nat) : Responder.KeepsCells (answer depth) := by
  induction depth with
  | zero => exact fun _ => .throw _
  | succ depth ih => exact keepsCells_respond ih depth

/-! ## What a host does -/

theorem Machine.cellsExist_empty : Machine.empty.CellsExist where
  closures ref c hc := by
    rw [Heap.closureOf?_eq_some] at hc
    cases hc
  links id link hlink := by
    cases id <;> cases hlink

/-- The cells that a host puts into a closure exist. -/
def Operation.HasCells (m : Machine) : Operation → Prop
  | .addFunction _ f => ∀ c, f = .closure c → m.heap.HasCells (· ∈ c.cells)
  | _ => True

/-- The cells that a host chose exist. -/
def Deed.HasCells (m : Machine) : Deed → Prop
  | .operate op => op.HasCells m
  | .fetch _ _ _ => True
  | .enter _ _ _ cells _ => m.heap.HasCells (· ∈ cells)

/-- The cells that each of some deeds brings exist by then. -/
def Deed.AllHaveCells (m : Machine) : List Deed → Prop
  | [] => True
  | d :: deeds => d.HasCells m ∧ AllHaveCells (d.apply m) deeds

/-- **The step.** After an operation, all cells exist that the machine holds on to. -/
theorem Operation.cellsExist {m : Machine} (h : m.CellsExist) {op : Operation}
    (hop : op.HasCells m) : (op.apply m).CellsExist := by
  cases op with
  | addCell v =>
    exact h.of_same rfl (fun _ _ hlink => hlink)
      (Nat.le_of_lt (Nat.lt_of_succ_le (Nat.le_of_eq (m.heap.size_cells_addCell v).symm)))
  | setCell cell v =>
    exact h.of_same rfl (fun _ _ hlink => hlink)
      (Nat.le_of_eq (m.heap.size_cells_setCell cell v).symm)
  | addFunction name f => exact h.addFunction name hop
  | addSite static truncate =>
    exact h.of_same rfl (fun _ _ hlink =>
      (Linking.Sites.adds_add m.sites static truncate).link_eq hlink) (Nat.le_refl _)
  | specialize engine proto args upvalues truncate =>
    exact h.of_undisturbed (Linking.undisturbed_specialize ..)
  | link engine site callee args =>
    exact (Linking.keepsCells_link engine site callee args).exist_of_none h
  | call depth request => exact (keepsCells_answer depth request).exist_of_none h
  | addTable shape => cases shape <;> exact h.of_same rfl (fun _ _ hlink => hlink) (Nat.le_refl _)
  | _ => exact h.of_same rfl (fun _ _ hlink => hlink) (Nat.le_refl _)

namespace Deed

variable {m : Machine}

theorem cellsExist (h : m.CellsExist) {d : Deed} (hd : d.HasCells m) : (d.apply m).CellsExist := by
  cases d with
  | operate op => exact op.cellsExist h hd
  | fetch engine ref signature =>
    rw [apply]
    split
    · exact h.of_undisturbed (Machine.serves_of_specialize rfl).1.undisturbed
    · exact h
  | enter depth engine spec cells args =>
    exact (keepsCells_enter (keepsCells_answer depth) depth engine spec cells args m).exist h hd

/-- **The run.** Whatever a host does, closures and call sites hold no cells but existing ones. -/
theorem cellsExist_run {deeds : List Deed} (hdeeds : AllHaveCells m deeds) (h : m.CellsExist) :
    (run m deeds).CellsExist := by
  induction deeds generalizing m with
  | nil => exact h
  | cons d deeds ih => exact ih hdeeds.2 (cellsExist h hdeeds.1)

end Deed
end AdaptiveScript
