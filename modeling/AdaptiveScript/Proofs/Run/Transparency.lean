import AdaptiveScript.Proofs.Run.Computing

/-!
# Specialization is transparent

Inference, specialization, shapes, layouts and links are there to make programs fast.  This
module says that programs do not notice them, whatever was specialized, merged, compiled and
linked before.

* `answer_matches_plain`: a call ends as a plain call does, and leaves behind what a plain
  call leaves behind.
* `reads_of_fair`: whatever a run reads from a local has the type that was found for the
  local, and specialized code never meets a value that it did not count on.

Both are about runs in which the declared types of upvalues are true, sealed cells are not
written, and no local is read before it is assigned (`Machine.Fair`).  Such a local holds
nil, and inference does not see that: code for its type meets nil instead.
-/

namespace AdaptiveScript

/-! ## Examples -/

section Examples

/-- A program without upvalues makes no promises. -/
theorem Machine.kept_of_upvalues {m : Machine}
    (h : ∀ proto ∈ m.program.prototypes, proto.upvalues = #[]) : m.Kept := by
  have hnone {ref : PrototypeRef} {proto : Prototype} {i : Nat} {template : UpvalueTemplate}
      (hproto : m.program.prototype? ref = some proto)
      (htemplate : proto.upvalues[i]? = some template) : False := by
    rw [h proto (Program.mem_of_prototype? hproto)] at htemplate
    cases htemplate
  refine ⟨fun t _ ref c proto i template cell type _ hproto htemplate => ?_,
    fun t t' _ _ ref c proto i template cell _ _ hproto htemplate => ?_⟩
  · exact (hnone hproto htemplate).elim
  · exact (hnone hproto htemplate).elim

namespace Operation

variable (config : Config) (static : List Ty)

theorem fair_makeIdentity {m : Machine}
    (hprogram : m.program = (run .empty (makeIdentity config static)).program) : m.Fair := by
  refine ⟨Array.all_eq_true_iff_forall_mem.mpr fun proto hproto => ?_,
    Machine.kept_of_upvalues fun proto hproto => ?_⟩ <;>
  · rw [hprogram] at hproto
    obtain rfl := Array.mem_singleton.mp hproto
    rfl

theorem orderly_makeIdentity : (run .empty (makeIdentity config static)).Orderly := by
  refine ⟨fun ref c hc => ?_, fun proto hproto => ?_⟩
  · obtain ⟨id, name⟩ := ref
    cases id with
    | zero =>
      cases hc
      exact ⟨_, rfl, rfl⟩
    | succ id => cases hc
  · obtain rfl := Array.mem_singleton.mp hproto
    exact ⟨⟨Nat.zero_lt_one, trivial⟩, trivial⟩

/-- A function that adds its argument to an upvalue, in a local of its own.  The upvalue is
declared to be an integer and sealed. -/
def adder : Prototype :=
  .ofParts ⟨1, "add"⟩ ["x"] ["y"] [⟨"step", some .integer, true⟩]
    [.declare 1 (some (.upvalue 0)), .assign 1 (.binary .add (.slot 1) (.slot 0)),
      .ret [.slot 1]]

/-- The function, an engine, a closure that adds two, and a site for calls with integers. -/
def makeAdder : List Operation :=
  [.addPrototype "add" ["x"] ["y"] adder.upvalues.toList adder.body, .addEngine .default,
    .addCell (.int 2), .addFunction "add" (.closure ⟨⟨1, "add"⟩, [0], 0⟩),
    .addSite [.integer] false]

theorem allValid_makeAdder : AllValid .empty makeAdder := by
  refine ⟨⟨?_, ?_⟩, trivial, trivial, trivial, ?_, trivial⟩
  · simp [adder, Prototype.ofParts, Stmt.BlockEvery, Stmt.Every, Stmt.Scoped, Stmt.operands,
      Expr.Scoped, Expr.mentions]
  · simp [adder, Prototype.ofParts, UpvalueTemplate.staticType, Ty.Has]
  · intro type htype
    obtain rfl := List.mem_singleton.mp htype
    trivial

/-- Whenever there is a closure, its upvalue holds two. -/
theorem fair_makeAdder : (run .empty makeAdder).Fair := by
  have hpromise {t : Moment} (ht : (run .empty makeAdder).moments t) {ref : FunctionRef}
      {c : Closure} (hc : t.heap.closureOf? ref = some c) :
      c.cells = [0] ∧ t.heap.cell 0 = .int 2 := by
    obtain ⟨id, name⟩ := ref
    rcases ht with (rfl | rfl) | rfl
    · cases hc
    · cases hc
    · cases id with
      | zero =>
        cases hc
        exact ⟨rfl, rfl⟩
      | succ id => cases hc
  have hprogram {ref : PrototypeRef} {proto : Prototype} {i : Nat} {template : UpvalueTemplate}
      (hproto : (run .empty makeAdder).program.prototype? ref = some proto)
      (htemplate : proto.upvalues[i]? = some template) :
      i = 0 ∧ template.knownType = some .integer := by
    obtain rfl := Array.mem_singleton.mp (Program.mem_of_prototype? hproto)
    cases i with
    | zero =>
      cases htemplate
      exact ⟨rfl, rfl⟩
    | succ i => cases htemplate
  refine ⟨by decide +kernel, ?_, ?_⟩
  · intro t ht ref c proto i template cell type hc hproto htemplate hcell htype
    obtain ⟨hcells, hvalue⟩ := hpromise ht hc
    obtain ⟨rfl, hknown⟩ := hprogram hproto htemplate
    rw [hknown] at htype
    rw [hcells] at hcell
    cases htype
    cases hcell
    rw [hvalue]
    rfl
  · intro t t' ht ht' ref c proto i template cell hc hc' hproto htemplate hcell _
    obtain ⟨hcells, hvalue⟩ := hpromise ht hc
    obtain ⟨-, hvalue'⟩ := hpromise ht' hc'
    obtain ⟨rfl, -⟩ := hprogram hproto htemplate
    rw [hcells] at hcell
    cases hcell
    rw [hvalue, hvalue']

theorem orderly_makeAdder : (run .empty makeAdder).Orderly := by
  refine ⟨fun ref c hc => ?_, fun proto hproto => ?_⟩
  · obtain ⟨id, name⟩ := ref
    cases id with
    | zero =>
      cases hc
      exact ⟨_, rfl, rfl⟩
    | succ id => cases hc
  · obtain rfl := Array.mem_singleton.mp hproto
    refine ⟨⟨Nat.one_lt_two, fun e he => ?_⟩, ⟨Nat.one_lt_two, Nat.one_lt_two, Nat.two_pos⟩,
      ⟨Nat.one_lt_two, trivial⟩, trivial⟩
    cases he
    exact Nat.one_pos

/-- The function can be called through the site. -/
theorem canCompute_makeAdder : Linking.CanCompute (run .empty makeAdder) 1 [.integer] false
    ⟨0, "add"⟩ ⟨⟨1, "add"⟩, [0], 0⟩ adder :=
  ⟨Machine.Reached.sound (.of_operations allValid_makeAdder),
    ⟨Nat.one_pos, Nat.le_refl 1, rfl, rfl⟩, rfl, rfl, by decide⟩

end Operation
end Examples

/-! ## Calls -/

/-- **Specialization is transparent.**  Take a machine that operations lead to, whose code is
well formed and whose closures have the cells that they need, and a call that keeps the
promises of the program and calls no function of the host.  However it is made, it ends as
the plain call does: with the same results, or for the same reason.  A call through a site
has arguments of the static types of the site, and keeps one result if the site does.  All
that programs can see is then the same: the tables as maps, the cells, the functions and the
global variables. -/
theorem answer_matches_plain {m : Machine} (h : m.Reached) (horderly : m.Orderly) {depth : Nat}
    {request : Request} (hsite : request.HasSite m) (hargs : request.Admitted m)
    (hfair : ((answer depth request).run.run m).2.Fair) {outcome : Except Stop (List Value)}
    {w : World} (hplain : (Plain.answer depth request).run.run m.world = some (outcome, w)) :
    Matches (fun vs us => vs = cut (request.truncates m) us)
      ((answer depth request).run.run m).1 outcome ∧
    ((answer depth request).run.run m).2.Alike w :=
  (answered_answer depth h.sound hsite).faithful hargs hfair horderly (.refl h.sound) hplain

/-- The function that adds two, which is the value of a sealed upvalue, through a site for
integers. -/
theorem answer_matches_plain_sum :
    let m := Operation.run .empty Operation.makeAdder
    let request := Request.site 0 1 (.function ⟨0, "add"⟩) [.int 5]
    m.Reached ∧ m.Orderly ∧ request.HasSite m ∧ request.Admitted m ∧
      ((answer 2 request).run.run m).2.Fair ∧
      ∃ w, (Plain.answer 2 request).run.run m.world = some (.ok [.int 7], w) ∧
        ((answer 2 request).run.run m).1 = .ok [.int 7] ∧
        ((answer 2 request).run.run m).2.Alike w := by
  intro m request
  have hreached : m.Reached := .of_operations Operation.allValid_makeAdder
  have hsite : request.HasSite m := ⟨by decide, by decide⟩
  have hargs : request.Admitted m := Machine.AdmitsAll.cons rfl (.nil m)
  have hfair : ((answer 2 request).run.run m).2.Fair :=
    Operation.canCompute_makeAdder.fair_call 0 [.int 5] 1 Operation.fair_makeAdder
  obtain ⟨w, hplain⟩ : ∃ w, (Plain.answer 2 request).run.run m.world = some (.ok [.int 7], w) :=
    ⟨_, rfl⟩
  obtain ⟨hmatches, halike⟩ :=
    answer_matches_plain hreached Operation.orderly_makeAdder hsite hargs hfair hplain
  refine ⟨hreached, Operation.orderly_makeAdder, hsite, hargs, hfair, w, hplain, ?_, halike⟩
  generalize ((answer 2 request).run.run m).1 = result at hmatches
  cases hmatches with
  | ok hvalues => exact congrArg Except.ok hvalues

/-- A string through a site for integers: the plain call returns it, and the call through the
site is turned down. -/
theorem answer_refuses_string :
    let m := Operation.run .empty (Operation.makeIdentity .default [.integer])
    let request := Request.site 0 1 (.function ⟨0, "id"⟩) [.str "a"]
    m.Reached ∧ m.Orderly ∧ request.HasSite m ∧ ((answer 2 request).run.run m).2.Fair ∧
      (∃ w, (Plain.answer 2 request).run.run m.world = some (.ok [.str "a"], w)) ∧
      ∃ e, ((answer 2 request).run.run m).1 = .error (.error e) := by
  intro m request
  have hreached : m.Reached :=
    .of_operations (Operation.allValid_makeIdentity .default (by simp [Ty.Has]))
  have hsite : request.HasSite m := ⟨by decide, by decide⟩
  refine ⟨hreached, Operation.orderly_makeIdentity .default [.integer], hsite,
    Operation.fair_makeIdentity .default [.integer]
      (answered_answer 2 hreached.sound hsite).evolves.program, ⟨_, rfl⟩, ?_⟩
  exact ⟨.expected "integer" .string, by decide +kernel⟩

/-! ## Reads -/

/-- **The step.** An operation reads values of the types that were found. -/
theorem Operation.readsOk {m : Machine} (h : m.Sound) {op : Operation} (hvalid : op.Valid m)
    (hfair : (op.apply m).Fair) (hreads : m.ReadsOk) : (op.apply m).ReadsOk := by
  have hsame {m' : Machine} (heq : m'.reads = m.reads) : m'.ReadsOk := by
    unfold Machine.ReadsOk
    rw [heq]
    exact hreads
  cases op with
  | specialize engine ref args upvalues truncate =>
    exact hsame (compiles_specialize h engine ref truncate hvalid.1 hvalid.2).prepares.reads
  | addTable shape => cases shape <;> exact hsame rfl
  | link engine site callee args =>
    have hlink := Linking.yields_link h engine ⟨hvalid.1, hvalid.2, rfl, rfl⟩ callee args
    exact hsame hlink.evolves.reads
  | call depth request => exact (answered_answer depth h hvalid).reads hfair hreads
  | _ => exact hsame rfl

/-- **The run.** Operations read values of the types that were found. -/
theorem Operation.readsOk_run {ops : List Operation} (hvalid : AllValid .empty ops)
    (hfair : (run .empty ops).Fair) : (run .empty ops).ReadsOk := by
  induction ops using List.reverseRecOn with
  | nil => exact fun _ _ _ hread => hread.elim
  | append_singleton ops op ih =>
    obtain ⟨hbefore, hop⟩ := allValid_concat.mp hvalid
    have hreached : (run .empty ops).Reached := .of_operations hbefore
    have hsound := hreached.sound
    rw [run, List.foldl_append] at hfair ⊢
    exact readsOk hsound hop hfair (ih hbefore (hfair.of_grows (advances hsound hop).grows))

/-- **Inference is sound** for runs that keep the promises of their program.  After any
operations, all reads of locals gave values of the types that were found for the locals.
This stays so in every further call, and in every routine that is made for some signature
and entered with the cells of a closure, if the program supports the types of the upvalues in
the signature: it declares them or seals the cells.  No such run ends in an error of
specialized code that meets a value of another type. -/
theorem reads_of_fair {ops : List Operation} (hvalid : Operation.AllValid .empty ops)
    (hfair : (Operation.run .empty ops).Fair) :
    (Operation.run .empty ops).ReadsOk ∧
    (∀ depth request, request.HasSite (Operation.run .empty ops) →
      ∀ result m', (answer depth request).run.run (Operation.run .empty ops) = (result, m') →
        m'.Fair → m'.ReadsOk ∧ ∀ e, result = .error (.error e) → e.isViolation = false) ∧
    ∀ engine ref closure proto types upvalues truncate spec m₁,
      (Operation.specialize engine closure.proto types upvalues truncate).Valid
        (Operation.run .empty ops) →
      (Operation.run .empty ops).heap.closureOf? ref = some closure →
      (Operation.run .empty ops).program.prototype? closure.proto = some proto →
      (Linking.specialize engine closure.proto types upvalues truncate).run.run
        (Operation.run .empty ops) = (.ok spec, m₁) →
      proto.Supports m₁.shapes spec.signature.upvalues →
      ∀ depth rounds args result m',
        (spec.enter (answer depth) rounds engine closure.cells args >>=
          Attempt.results).run.run m₁ = (result, m') →
        m'.Fair → m'.ReadsOk ∧ ∀ e, result = .error (.error e) → e.isViolation = false := by
  have hreads := Operation.readsOk_run hvalid hfair
  have hreached : (Operation.run .empty ops).Reached := .of_operations hvalid
  have hsound := hreached.sound
  generalize Operation.run .empty ops = m at hreads hsound
  refine ⟨hreads, fun depth request hsite result m' hrun hfair' => ?_,
    fun engine ref closure proto types upvalues truncate spec m₁ hhas hclosure hproto hspec
      hsupports depth rounds args result m' hrun hfair' => ?_⟩
  · have hanswered := answered_answer depth hsound hsite
    rw [Answered, Refines, hrun] at hanswered
    exact ⟨hanswered.reads hfair' hreads, fun e he => hanswered.violation hfair' he⟩
  · have hyields := Linking.yields_specialize hsound engine hproto truncate hhas.1 hhas.2
    obtain ⟨-, hid, hok⟩ := hyields.post (congrArg Prod.fst hspec)
    have hprep := hyields.evolves.prepares
    rw [hspec] at hok hprep
    have hentered : spec.Passes m₁.shapes m₁.heap closure.cells args →
        spec.Entered m₁ ref closure proto args := fun hpasses =>
      ⟨hprep.sound, hok, by rw [hprep.heap, hclosure],
        hprep.evolves.grows.program.prototype? hproto, hid, hsupports, hpasses⟩
    have henter := refines_enter (.of_answered (answered_answer depth)) hprep.sound hentered
      (fun hno : False => hno.elim) rounds engine
    rw [Refines, hrun] at henter
    have hreads₁ : m₁.ReadsOk := by
      unfold Machine.ReadsOk
      rw [hprep.reads]
      exact hreads
    exact ⟨henter.reads hfair' hreads₁, fun e he => henter.violation hfair' he⟩

/-- The function that adds two, called twice. -/
theorem reads_of_fair_sums :
    let call := fun v => Request.site 0 1 (.function ⟨0, "add"⟩) [v]
    let ops := Operation.makeAdder ++ [.call 2 (call (.int 5))]
    let m := Operation.run .empty ops
    Operation.AllValid .empty ops ∧ m.Fair ∧ m.ReadsOk ∧
      ((answer 2 (call (.int 6))).run.run m).2.Fair ∧
      ((answer 2 (call (.int 6))).run.run m).2.ReadsOk := by
  intro call ops m
  have hcan := Operation.canCompute_makeAdder
  have hvalid : Operation.AllValid .empty ops :=
    Operation.allValid_concat.mpr ⟨Operation.allValid_makeAdder, hcan.site.pos, hcan.site.le⟩
  have hfair : m.Fair := hcan.fair_call 0 [.int 5] 1 Operation.fair_makeAdder
  have hcan' : Linking.CanCompute m 1 [.integer] false ⟨0, "add"⟩ ⟨⟨1, "add"⟩, [0], 0⟩
      Operation.adder := hcan.call 0 [.int 5] 1
  have hfair' : ((answer 2 (call (.int 6))).run.run m).2.Fair := hcan'.fair_call 0 [.int 6] 1 hfair
  obtain ⟨hreads, hcalls, -⟩ := reads_of_fair hvalid hfair
  have hm : Operation.run .empty ops = m := rfl
  rw [hm] at hreads hcalls
  clear_value m
  obtain ⟨hreads', -⟩ := hcalls 2 (call (.int 6)) ⟨hcan'.site.pos, hcan'.site.le⟩ _ _
    (Prod.eta _).symm hfair'
  exact ⟨hvalid, hfair, hreads, hfair', hreads'⟩

end AdaptiveScript
