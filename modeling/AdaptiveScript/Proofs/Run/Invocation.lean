import AdaptiveScript.Proofs.Linking.Publication
import AdaptiveScript.Proofs.Run.Operation

/-!
# Calls through the sites of reached machines

Links are made for one callee and used for others, by engines that do not know of each
other, after any number of failures.  Still every link that is in place runs the code of
each callee that its guard lets pass (`Linking.links_of_reached`), and a call through a site
with arguments of its static types is never turned down for good: either something takes it,
after at most one visit to the linker, or the linker has a reason of its own
(`Linking.invoke_of_admitted`).

Host functions are an exception in one respect.  A link binds one overload, and goes on
running it as long as it takes the arguments, even if an earlier overload would take them
too.  So a call through a site runs some overload that takes the arguments, and it is the
one that a direct call runs if no other takes them (`Linking.invoke_host`).
-/

namespace AdaptiveScript
namespace Linking

/-! ## Published links -/

/-- A target has nothing to run for a callee: it was made for closures and the callee is none,
or its host function or overload does not exist. -/
def Target.Lost (m : Machine) (callee : Value) : Target → Prop
  | .instance _ _ => False
  | .prototype _ => m.heap.closure? callee = none
  | .host ref index => ∀ overloads, m.heap.overloads? ref = some overloads →
    overloads.length ≤ index
  | .foreign ref => m.heap.function? ref = none

/-- A target that runs the code of a callee has something to run for it. -/
theorem Target.Serves.not_lost {m : Machine} {truncate : Bool} {callee : Value} {target : Target}
    (h : target.Serves m truncate callee) : ¬ target.Lost m callee := by
  obtain ⟨guard, hguard, hvalid⟩ := h
  intro hlost
  cases hvalid with
  | closure => exact hlost
  | «prototype» =>
    cases callee with
    | function ref =>
      rw [Guard.holds, show m.heap.closureOf? ref = none from hlost] at hguard
      cases hguard
    | _ => cases hguard
  | host hoverloads hindex => exact absurd (hlost _ hoverloads) (Nat.not_le_of_lt hindex)
  | foreign hfunction =>
    rw [show m.heap.function? _ = none from hlost] at hfunction
    cases hfunction

/-- **Links match their guards.**  A link that is in place at a site of a reached machine is
what its guard says: one closure with its own cells, all closures of a prototype with the
upvalue types that they share, or a function of the host, and it keeps as many results as
the site does.  For every callee that the guard lets pass, it has something to run, and what
it starts is the code of that callee.  The same holds of what the linker chooses during a
call. -/
theorem links_of_reached {m : Machine} (h : m.Reached) (id : SiteId) :
    (∀ link, (m.sites.get id).link = some link → link.Valid m (m.sites.get id).truncate ∧
      ∀ engine callee args, link.guard.holds m.heap callee = true →
        ¬ link.target.Lost m callee ∧
        (∀ again rounds, (link.target.run again rounds engine callee args).run.run m =
          (attempt again rounds engine args (link.target.begin m callee args)).run.run m) ∧
        ∀ start, link.target.begin m callee args = .ok start →
          start.Serves m (m.sites.get id).truncate args callee) ∧
    (0 < id → id ≤ m.sites.sites.size → ∀ engine callee args before m₀ m₁ outcome,
      Relinks (m.recordCall engine id callee args) engine id callee args m₀ →
      (enter before engine id callee args).run.run m₀ = (.ok outcome, m₁) →
      ¬ outcome.target.Lost m₁ callee ∧ ∀ start, outcome.target.begin m₁ callee args = .ok start →
        start.Serves m₁ (m.sites.get id).truncate args callee) := by
  have hsound := h.sound
  refine ⟨fun link hlink => ?_,
    fun hpos hle engine callee args before m₀ m₁ outcome hrelinks hrun => ?_⟩
  · have hvalid := hsound.links id link hlink
    refine ⟨hvalid, fun engine callee args hguard => ?_⟩
    have hserves : link.target.Serves m (m.sites.get id).truncate callee :=
      ⟨link.guard, hguard, hvalid⟩
    exact ⟨hserves.not_lost, fun again rounds => run_target again rounds engine hserves args,
      fun start => hserves.start⟩
  · have hrecord := Machine.Prepares.recordCall hsound engine id callee args
    have hprep := hrelinks.prepares hrecord.sound
    have hsite : m.sites.Has id (m.sites.get id).static (m.sites.get id).truncate :=
      ⟨hpos, hle, rfl, rfl⟩
    have hsuits := (yields_enter hprep.sound before engine (hprep.evolves.grows.sites hsite) callee
      args).post (congrArg Prod.fst hrun)
    rw [hrun] at hsuits
    exact ⟨hsuits.serves.not_lost, fun start => hsuits.serves.start⟩

/-- The function that returns its argument, called once through a site: the link in place
lets it pass and has its code. -/
theorem links_of_reached_called :
    ∃ (m : Machine) (link : Link), m.Reached ∧ (m.sites.get 1).link = some link ∧
      link.guard.holds m.heap (.function ⟨0, "id"⟩) = true ∧
      link.Valid m (m.sites.get 1).truncate ∧ ¬ link.target.Lost m (.function ⟨0, "id"⟩) ∧
      ∀ start, link.target.begin m (.function ⟨0, "id"⟩) [.int 7] = .ok start →
        start.Serves m (m.sites.get 1).truncate [.int 7] (.function ⟨0, "id"⟩) := by
  let ops := Operation.makeIdentity .default [.integer]
  let call := Operation.call 2 (.site 0 1 (.function ⟨0, "id"⟩) [.int 5])
  have hreached : (Operation.run .empty (ops ++ [call])).Reached :=
    .of_operations (Operation.allValid_concat.mpr
      ⟨Operation.allValid_makeIdentity .default (by simp [Ty.Has]), ⟨by decide, by decide⟩⟩)
  have hlink : ((Operation.run .empty (ops ++ [call])).sites.get 1).link.any (fun link =>
      link.guard.holds (Operation.run .empty (ops ++ [call])).heap (.function ⟨0, "id"⟩)) = true := by
    decide +kernel
  generalize Operation.run .empty (ops ++ [call]) = m at hreached hlink
  obtain ⟨link, hlink, hguard⟩ := (Option.any_eq_true _ _).mp hlink
  obtain ⟨hvalid, hpasses⟩ := (links_of_reached hreached 1).1 link hlink
  obtain ⟨hfound, -, hserves⟩ := hpasses 0 _ [.int 7] hguard
  exact ⟨m, link, hreached, hlink, hguard, hvalid, hfound, hserves⟩

/-! ## Calls that are not turned down -/

/-- **A call with arguments of the static types** of its site, and with a function that keeps
what it declares.  It enters the linker at most once (`Dispatch`), and before anything that a
program could notice.  Then it is the run of one body, which is the code of the callee, and
nothing comes after that body: its results and its errors are those of the call.  Whatever the
site was linked to before, a body is started if the linker can find code for the callee
(`Linkable`).  If none is started, it is the linker that failed, and it failed because the body
of a closure is not well formed or because no overload takes the arguments. -/
theorem invoke_of_admitted {m : Machine} (h : m.Reached) {id : SiteId}
    (hsite : 0 < id ∧ id ≤ m.sites.sites.size) {callee : Value} {args : List Value}
    (hcallee : ∃ ref f, callee = .function ref ∧ m.heap.function? ref = some f)
    (hkeeps : Keeps m callee) (hargs : m.AdmitsAll (m.sites.get id).static args)
    (engine : EngineId) :
    ∃ result m₁,
      Dispatch (m.recordCall engine id callee args) engine id callee args result m₁ ∧
      m.Prepares m₁ ∧
      (∀ again rounds, (invoke again rounds engine id callee args).run.run m =
        (complete again rounds engine args result).run.run m₁) ∧
      (∀ start, result = .ok start →
        start.Serves m₁ (m.sites.get id).truncate args callee) ∧
      (Linkable m args callee → ∃ start, result = .ok start) ∧
      ∀ stop, result = .error stop →
        (∃ m₀, Relinks (m.recordCall engine id callee args) engine id callee args m₀ ∧
          (enter (.of (m.recordCall engine id callee args).toState) engine id callee
            args).run.run m₀ = (.error stop, m₁)) ∧
        ((∃ ref closure proto error, callee = .function ref ∧
            m.heap.function? ref = some (.closure closure) ∧
            m.program.prototype? closure.proto = some proto ∧
            ¬ Stmt.BlockWellFormed m.program proto false proto.body ∧
            stop = .error (.compilation error)) ∨
          ∃ ref overloads, callee = .function ref ∧
            m.heap.function? ref = some (.host overloads) ∧
            Overload.selectValues? m.shapes m.heap overloads args = none ∧
            stop = .error (.noOverload ref.name (args.map (m.typeOf engine)))) := by
  have hsound := h.sound
  have hhas : m.sites.Has id (m.sites.get id).static (m.sites.get id).truncate :=
    ⟨hsite.1, hsite.2, rfl, rfl⟩
  have hrecord := Machine.Prepares.recordCall hsound engine id callee args
  have hadmits : (m.recordCall engine id callee args).AdmitsAll (m.sites.get id).static args :=
    ⟨hargs.length, hargs.admits⟩
  have hkept := hkeeps.mono hsound hrecord
  obtain ⟨result, m₁, hdispatch, hprep, heq⟩ := invoke_eq engine hsound hhas callee args
  refine ⟨result, m₁, hdispatch, hprep, heq, ?_, ?_, ?_⟩
  · rintro start rfl
    exact hdispatch.serves hrecord.sound hhas
  · intro hlinkable
    exact hdispatch.exists_start hrecord.sound hhas hadmits hkept (hlinkable.recordCall engine id)
  · rintro stop rfl
    obtain ⟨hlinker, hfails⟩ := hdispatch.failure hrecord.sound hhas hadmits hkept
    refine ⟨hlinker, ?_⟩
    obtain ⟨ref, f, rfl, hfunction⟩ := hcallee
    cases hfails with
    | notCallable hnone =>
      have hlost : m.heap.function? ref = none := hnone ref rfl
      rw [hfunction] at hlost
      cases hlost
    | compilation hclosure hbody =>
      obtain ⟨proto, hcells⟩ := hkeeps _ (Heap.closureOf?_eq_some.mpr hclosure)
      exact .inl ⟨ref, _, proto, _, rfl, hclosure, hcells.prototype,
        hbody proto hcells.prototype, rfl⟩
    | binding hclosure hcells =>
      obtain ⟨proto, hcells'⟩ := hkeeps _ (Heap.closureOf?_eq_some.mpr hclosure)
      exact absurd hcells'.length (hcells proto hcells'.prototype)
    | noOverload hhost hselect => exact .inr ⟨ref, _, rfl, hhost, hselect, rfl⟩

/-- The function that returns its argument, through a site for all values.  The site was called
with an integer and is linked to code for integers.  That code turns a string down, which is
counted; the call is linked anew and returns the string. -/
theorem invoke_of_admitted_rejected :
    let callee := Value.function ⟨0, "id"⟩
    ∃ (m : Machine) (link : Link), m.Reached ∧ (0 < 1 ∧ 1 ≤ m.sites.sites.size) ∧
      (∃ ref f, callee = .function ref ∧ m.heap.function? ref = some f) ∧
      Keeps m callee ∧ m.AdmitsAll (m.sites.get 1).static [.str "a"] ∧
      Linkable m [.str "a"] callee ∧
      (m.sites.get 1).link = some link ∧ link.guard.holds m.heap callee = true ∧
      (∃ reason, link.target.begin m callee [.str "a"] = .error reason) ∧
      (∃ start m₁, Dispatch (m.recordCall 0 1 callee [.str "a"]) 0 1 callee [.str "a"]
          (.ok start) m₁ ∧ start.Serves m₁ (m.sites.get 1).truncate [.str "a"] callee ∧
        ∀ again rounds, (invoke again rounds 0 1 callee [.str "a"]).run.run m =
          (start.run again rounds 0 [.str "a"]).run.run m₁) ∧
      (m.engine 0).stats.deoptimizations = 0 ∧
      ((answer 2 (.site 0 1 callee [.str "a"])).run.run m).1 = .ok [.str "a"] ∧
      (((answer 2 (.site 0 1 callee [.str "a"])).run.run m).2.engine 0).stats.deoptimizations =
        1 := by
  intro callee
  let m₀ := Operation.run .empty (Operation.makeIdentity .default [.unknown])
  let call := Operation.call 2 (.site 0 1 callee [.int 5])
  let m := call.apply m₀
  have hreached₀ : m₀.Reached :=
    .of_operations (Operation.allValid_makeIdentity .default (by simp [Ty.Has]))
  have hvalid : call.Valid m₀ := ⟨by decide, by decide⟩
  have hreached : m.Reached := hreached₀.step trivial hvalid
  have hgrows : m₀.Grows m := (Operation.advances hreached₀.sound hvalid).grows
  have hclosure : m.heap.function? ⟨0, "id"⟩ = some (.closure ⟨⟨1, "id"⟩, [], 0⟩) :=
    hgrows.heap.function rfl
  have hproto : m.program.prototype? ⟨1, "id"⟩ =
      some (.ofParts ⟨1, "id"⟩ ["x"] [] [] [.ret [.slot 0]]) :=
    hgrows.program.prototype? rfl
  have hhas : m.sites.Has 1 [.unknown] false := hgrows.sites ⟨by decide, by decide, rfl, rfl⟩
  have hlinked : (m.sites.get 1).link.any (fun link => link.guard.holds m.heap callee &&
      !(link.target.begin m callee [.str "a"]).isOk) = true := by
    decide +kernel
  have hnone : (m.engine 0).stats.deoptimizations = 0 := by decide +kernel
  have hresults : ((answer 2 (.site 0 1 callee [.str "a"])).run.run m).1 = .ok [.str "a"] := by
    decide +kernel
  have hcounted : (((answer 2 (.site 0 1 callee [.str "a"])).run.run m).2.engine
      0).stats.deoptimizations = 1 := by
    decide +kernel
  clear_value m
  have hkeeps : Keeps m callee := by
    intro closure hfound
    cases (Heap.closureOf?_eq_some.mpr hclosure).symm.trans hfound
    exact ⟨_, hproto, rfl, fun i _ _ _ htemplate => by cases htemplate⟩
  have hlinkable : Linkable m [.str "a"] callee :=
    .closure hclosure ⟨hproto, rfl, ⟨⟨Nat.zero_lt_one, trivial⟩, trivial⟩⟩
  have hargs : m.AdmitsAll (m.sites.get 1).static [.str "a"] := by
    rw [hhas.static_eq]
    exact .cons (Ty.admits_unknown _ _ _) (.nil m)
  obtain ⟨link, hlink, hrejects⟩ := (Option.any_eq_true _ _).mp hlinked
  rw [Bool.and_eq_true] at hrejects
  have hreason : ∃ reason, link.target.begin m callee [.str "a"] = .error reason := by
    cases hbegin : link.target.begin m callee [.str "a"] with
    | error reason => exact ⟨reason, rfl⟩
    | ok start => simp [hbegin, Except.isOk, Except.toBool] at hrejects
  obtain ⟨result, m₁, hdispatch, -, heq, hserves, hstarts, -⟩ := invoke_of_admitted hreached
    ⟨hhas.pos, hhas.le⟩ ⟨⟨0, "id"⟩, _, rfl, hclosure⟩ hkeeps hargs 0
  obtain ⟨start, rfl⟩ := hstarts hlinkable
  exact ⟨m, link, hreached, ⟨hhas.pos, hhas.le⟩, ⟨_, _, rfl, hclosure⟩, hkeeps, hargs, hlinkable,
    hlink, hrejects.1, hreason, ⟨start, m₁, hdispatch, hserves start rfl, heq⟩, hnone, hresults,
    hcounted⟩

/-! ## Host functions -/

section Overloads

variable {m : Machine} {overloads : List Overload} {args : List Value} {index : Nat}

theorem exists_of_matchesAt (h : Overload.matchesAt m.shapes m.heap overloads index args = true) :
    ∃ overload, overloads[index]? = some overload ∧
      overload.admits m.shapes m.heap args = true := by
  unfold Overload.matchesAt at h
  cases hget : overloads[index]? with
  | none =>
    rw [hget] at h
    cases h
  | some overload =>
    rw [hget] at h
    exact ⟨overload, rfl, h⟩

/-- If an overload takes the arguments, one is found for them. -/
theorem exists_selectValues?
    (h : Overload.matchesAt m.shapes m.heap overloads index args = true) :
    ∃ first, Overload.selectValues? m.shapes m.heap overloads args = some first ∧
      first ≤ index := by
  obtain ⟨overload, hget, hadmits⟩ := exists_of_matchesAt h
  obtain ⟨hlt, rfl⟩ := List.getElem?_eq_some_iff.mp hget
  cases hselect : Overload.selectValues? m.shapes m.heap overloads args with
  | none =>
    have hnone := List.findIdx?_eq_none_iff.mp hselect _ (List.getElem_mem hlt)
    rw [hadmits] at hnone
    cases hnone
  | some first =>
    obtain ⟨_, -, hearlier⟩ := List.findIdx?_eq_some_iff_getElem.mp hselect
    exact ⟨first, rfl, Nat.le_of_not_lt fun hbefore => hearlier index hbefore hadmits⟩

variable {engine : EngineId} {id : Nat} {static : List Ty} {truncate : Bool} {ref : FunctionRef}

/-- Linking a host function changes no shape. -/
theorem shapes_enter (before : Ghost State) (engine : EngineId) (id : SiteId)
    (hhost : m.heap.function? ref = some (.host overloads)) (args : List Value) :
    ((enter before engine id (.function ref) args).run.run m).2.shapes = m.shapes := by
  show ((link engine id (.function ref) args).run.run m).2.shapes = m.shapes
  rw [link, run_get_bind]
  dsimp only
  rw [hhost]
  dsimp only
  unfold linkHost
  generalize plan _ _ _ _ = planned
  cases Overload.select? overloads planned.types with
  | some index =>
    dsimp only
    rw [run_publish]
    exact shapes_published m engine id planned _
  | none =>
    dsimp only
    rw [run_get_bind]
    cases Overload.selectValues? m.shapes m.heap overloads args <;> rfl

theorem Dispatch.shapes {m₁ : Machine} (h : m.Sound)
    (hhost : m.heap.function? ref = some (.host overloads)) {result : Except Stop Start}
    (hdispatch : Dispatch m engine id (.function ref) args result m₁) : m₁.shapes = m.shapes := by
  have hlinker {m₀ : Machine} (hrelinks : Relinks m engine id (.function ref) args m₀)
      {found : Except Stop Outcome}
      (hrun : (enter (.of m.toState) engine id (.function ref) args).run.run m₀ = (found, m₁)) :
      m₁.shapes = m.shapes := by
    have hprep := hrelinks.prepares h
    have hshapes := shapes_enter (.of m.toState) engine id (by rw [hprep.heap]; exact hhost) args
    rw [hrun] at hshapes
    refine Eq.trans hshapes ?_
    cases hrelinks <;> rfl
  cases hdispatch with
  | inPlace => rfl
  | linked hrelinks hrun _ => exact hlinker hrelinks hrun
  | refused hrelinks hrun _ => exact hlinker hrelinks hrun
  | failed hrelinks hrun => exact hlinker hrelinks hrun

/-- The link in place is not asked again. -/
theorem Dispatch.eq_start {m₁ : Machine} {callee : Value} {link : Link} {start : Start}
    (hlink : (m.sites.get id).link = some link) (hguard : link.guard.holds m.heap callee = true)
    (hbegin : link.target.begin m callee args = .ok start) {result : Except Stop Start}
    (hdispatch : Dispatch m engine id callee args result m₁) : result = .ok start := by
  have hstays {m₀ : Machine} (hrelinks : Relinks m engine id callee args m₀) : False := by
    cases hrelinks <;> simp_all
  cases hdispatch with
  | inPlace hlink' _ hbegin' =>
    rw [hlink] at hlink'
    cases hlink'
    cases hbegin'.symm.trans hbegin
    rfl
  | linked hrelinks => exact (hstays hrelinks).elim
  | refused hrelinks => exact (hstays hrelinks).elim
  | failed hrelinks => exact (hstays hrelinks).elim

/-- What is started for a host function is an overload that takes the arguments. -/
theorem Start.Serves.exists_overload {start : Start}
    (hhost : m.heap.function? ref = some (.host overloads))
    (h : start.Serves m truncate args (.function ref)) :
    ∃ bound index, start = .overload bound overloads index ∧
      Overload.matchesAt m.shapes m.heap overloads index args = true := by
  cases h with
  | routine hclosure =>
    rw [Heap.closureOf?, hhost] at hclosure
    cases hclosure
  | overload _ hoverloads hmatches =>
    rw [Heap.overloads?, hhost] at hoverloads
    cases hoverloads
    exact ⟨_, _, rfl, hmatches⟩
  | direct _ hforeign =>
    rw [hhost] at hforeign
    cases hforeign

/-- A call of a host function with arguments of the static types starts an overload that takes
them, unless there is none. -/
theorem Dispatch.of_host {m₁ : Machine} (h : m.Sound) (hsite : m.sites.Has id static truncate)
    (hhost : m.heap.function? ref = some (.host overloads)) (hargs : m.AdmitsAll static args)
    {result : Except Stop Start} (hheap : m₁.heap = m.heap)
    (hdispatch : Dispatch m engine id (.function ref) args result m₁) :
    (Overload.selectValues? m.shapes m.heap overloads args = none ∧
      ∃ types, result = .error (.error (.noOverload ref.name types))) ∨
    ∃ bound index, result = .ok (.overload bound overloads index) ∧
      Overload.matchesAt m.shapes m.heap overloads index args = true := by
  cases result with
  | ok start =>
    obtain ⟨bound, index, rfl, hmatches⟩ := (hdispatch.serves h hsite).exists_overload
      (by rw [hheap]; exact hhost)
    rw [hdispatch.shapes h hhost, hheap] at hmatches
    exact .inr ⟨bound, index, rfl, hmatches⟩
  | error stop =>
    have hkeeps : Keeps m (.function ref) := by
      intro closure hclosure
      change m.heap.closureOf? ref = some closure at hclosure
      rw [Heap.closureOf?, hhost] at hclosure
      cases hclosure
    refine .inl ?_
    cases (hdispatch.failure h hsite hargs hkeeps).2 with
    | notCallable hnone => cases hhost.symm.trans (hnone ref rfl)
    | compilation hclosure => cases hhost.symm.trans hclosure
    | binding hclosure => cases hhost.symm.trans hclosure
    | noOverload hoverloads hselect =>
      cases hhost.symm.trans hoverloads
      exact ⟨hselect, _, rfl⟩

theorem run_overload (again : Responder) {overload : Overload}
    (hget : overloads[index]? = some overload) :
    runOverload again ref overloads index args = perform again (overload.action args) := by
  rw [runOverload, hget]

end Overloads

/-- **Host functions through call sites.**  If no overload takes the arguments, calls through
a site fail as direct calls do.  Otherwise a direct call runs the first overload that takes
them, and a call through a site runs one that takes them too.  That is the one of the link in
place as long as this one takes them, whether or not it is the first.  The two calls agree
if no other overload takes the arguments. -/
theorem invoke_host {m : Machine} (h : m.Reached) {id : SiteId}
    (hsite : 0 < id ∧ id ≤ m.sites.sites.size) {ref : FunctionRef} {overloads : List Overload}
    (hhost : m.heap.function? ref = some (.host overloads)) {args : List Value}
    (hargs : m.AdmitsAll (m.sites.get id).static args) (engine : EngineId) :
    ∃ m₁, m.Prepares m₁ ∧
      (Overload.selectValues? m.shapes m.heap overloads args = none →
        ∃ types types', ∀ again rounds,
          (invoke again rounds engine id (.function ref) args).run.run m =
            (.error (.error (.noOverload ref.name types)), m₁) ∧
          (runDirect again rounds ref args).run.run m =
            (.error (.error (.noOverload ref.name types')), m)) ∧
      ∀ first, Overload.selectValues? m.shapes m.heap overloads args = some first →
        ∃ index chosen earliest, overloads[index]? = some chosen ∧
          overloads[first]? = some earliest ∧ chosen.admits m.shapes m.heap args = true ∧
          first ≤ index ∧
          (∀ again rounds, (invoke again rounds engine id (.function ref) args).run.run m =
            (perform again (chosen.action args)).run.run m₁ ∧
            (runDirect again rounds ref args).run.run m =
              (perform again (earliest.action args)).run.run m) ∧
          (∀ bound, (m.sites.get id).link = some ⟨.identity ref, .host ref bound⟩ →
            Overload.matchesAt m.shapes m.heap overloads bound args = true → index = bound) ∧
          ((∀ other, Overload.matchesAt m.shapes m.heap overloads other args = true →
            other = first) → index = first) := by
  have hsound := h.sound
  have hhas : m.sites.Has id (m.sites.get id).static (m.sites.get id).truncate :=
    ⟨hsite.1, hsite.2, rfl, rfl⟩
  have hrecord := Machine.Prepares.recordCall hsound engine id (.function ref) args
  have hdirect (again : Responder) (rounds : Nat) :
      (runDirect again rounds ref args).run.run m = (runHost again ref overloads args).run.run m := by
    rw [runDirect, run_get_bind, hhost]
  obtain ⟨result, m₁, hdispatch, hprep, heq⟩ :=
    invoke_eq engine hsound hhas (.function ref) args
  refine ⟨m₁, hprep, ?_⟩
  rcases hdispatch.of_host hrecord.sound hhas hhost ⟨hargs.length, hargs.admits⟩
    hprep.heap with ⟨hnone, types, rfl⟩ | ⟨bound, index, rfl, hmatches⟩
  · change Overload.selectValues? m.shapes m.heap overloads args = none at hnone
    refine ⟨fun _ => ⟨types, args.map (Ty.ofValue .empty m.heap), fun again rounds =>
      ⟨heq again rounds, ?_⟩⟩, fun first hfirst => ?_⟩
    · rw [hdirect, runHost, run_get_bind, hnone]
      rfl
    · rw [hnone] at hfirst
      cases hfirst
  · change Overload.matchesAt m.shapes m.heap overloads index args = true at hmatches
    obtain ⟨chosen, hchosen, hadmits⟩ := exists_of_matchesAt hmatches
    obtain ⟨first, hfirst, hle⟩ := exists_selectValues? hmatches
    refine ⟨fun hnone => ?_, fun other hother => ?_⟩
    · rw [hnone] at hfirst
      cases hfirst
    · cases hfirst.symm.trans hother
      obtain ⟨-, hearliest⟩ := matchesAt_of_selectValues? hfirst
      obtain ⟨earliest, hget, -⟩ := exists_of_matchesAt hearliest
      refine ⟨index, chosen, earliest, hchosen, hget, hadmits, hle, fun again rounds => ⟨?_, ?_⟩,
        fun other hlink hother => ?_, fun hunique => hunique index hmatches⟩
      · rw [heq, complete, Start.run, run_overload again hchosen]
      · rw [hdirect, runHost, run_get_bind, hfirst]
        dsimp only
        rw [run_overload again hget]
      · have hbegin : (Target.host ref other).begin (m.recordCall engine id (.function ref) args)
            (.function ref) args = .ok (.overload ref overloads other) := by
          have hoverloads : (m.recordCall engine id (.function ref) args).heap.overloads? ref =
              some overloads := Heap.overloads?_eq_some.mpr hhost
          rw [Target.begin, hoverloads]
          exact if_pos hother
        cases Dispatch.eq_start (m := m.recordCall engine id (.function ref) args) hlink
          (Guard.holds_identity _ ref) hbegin hdispatch
        rfl

/-- A host function with an overload for integers and one for all values.  Its site was first
called with a string, so it runs the second overload for an integer too. -/
theorem invoke_host_overlapping :
    let integers : Overload := ⟨[.exact .integer], .yield [.str "int"]⟩
    let all : Overload := ⟨[.any], .yield [.str "any"]⟩
    ∃ m : Machine, m.Reached ∧ (0 < 1 ∧ 1 ≤ m.sites.sites.size) ∧
      m.heap.function? ⟨0, "h"⟩ = some (.host [integers, all]) ∧
      m.AdmitsAll (m.sites.get 1).static [.int 5] ∧
      Overload.selectValues? m.shapes m.heap [integers, all] [.int 5] = some 0 ∧
      (∃ (m₁ : Machine) (chosen : Overload), chosen.admits m.shapes m.heap [.int 5] = true ∧
        ∀ again rounds, (invoke again rounds 0 1 (.function ⟨0, "h"⟩) [.int 5]).run.run m =
          (perform again (chosen.action [.int 5])).run.run m₁) ∧
      ((answer 2 (.site 0 1 (.function ⟨0, "h"⟩) [.int 5])).run.run m).1 = .ok [.str "any"] ∧
      ((answer 2 (.direct ⟨0, "h"⟩ [.int 5])).run.run m).1 = .ok [.str "int"] := by
  intro integers all
  let m₀ := Operation.run .empty [.addEngine .default, .addFunction "h" (.host [integers, all]),
    .addSite [.unknown] false]
  let call := Operation.call 2 (.site 0 1 (.function ⟨0, "h"⟩) [.str "a"])
  let m := call.apply m₀
  have hreached₀ : m₀.Reached :=
    .of_operations ⟨trivial, trivial, by simp [Ty.Has, Operation.Valid], trivial⟩
  have hvalid : call.Valid m₀ := ⟨by decide, by decide⟩
  have hreached : m.Reached := hreached₀.step trivial hvalid
  have hgrows := (Operation.advances hreached₀.sound hvalid).grows
  have hhost : m.heap.function? ⟨0, "h"⟩ = some (.host [integers, all]) := hgrows.heap.function rfl
  have hhas : m.sites.Has 1 [.unknown] false := hgrows.sites ⟨by decide, by decide, rfl, rfl⟩
  have hsite : 0 < 1 ∧ 1 ≤ m.sites.sites.size := ⟨hhas.pos, hhas.le⟩
  have hargs : m.AdmitsAll (m.sites.get 1).static [.int 5] := by
    rw [hhas.static_eq]
    exact .cons (Ty.admits_unknown _ _ _) (.nil m)
  have hselect : Overload.selectValues? m.shapes m.heap [integers, all] [.int 5] = some 0 := by
    decide +kernel
  obtain ⟨m₁, -, -, hsome⟩ := invoke_host hreached hsite hhost hargs 0
  obtain ⟨index, chosen, _, -, -, hadmits, -, hrun, -, -⟩ := hsome 0 hselect
  exact ⟨m, hreached, hsite, hhost, hargs, hselect,
    ⟨m₁, chosen, hadmits, fun again rounds => (hrun again rounds).1⟩, by decide +kernel,
    by decide +kernel⟩

end Linking
end AdaptiveScript
