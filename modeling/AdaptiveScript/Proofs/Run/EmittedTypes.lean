import AdaptiveScript.Proofs.Emission.Typing
import AdaptiveScript.Proofs.Run.Compilability

/-!
# Code has the types that inference gives

A function is compiled in two steps: its body is analysed, and code is emitted under the types
that were found.  The analysis settles every expression of the body
(`Inference.settled_of_holds`), and emission keeps them settled: from the end of the analysis to
the end of the emission no shapes are merged and no return types are found.  So whenever an
expression is emitted, its code has the type that inference gives for it there.
-/

namespace AdaptiveScript
namespace Compile

open Inference (returnTypesOf ofTypes)

/-- The analysis with which a compilation begins. -/
def analysis (program : Program) (proto : Prototype) (signature : Signature)
    (maxIterations : Nat) (k : Knowledge) : Inference.Stage :=
  let start := ofTypes proto signature.args signature.upvalues maxIterations
  (start.analyze (returnTypesOf program start.maxIterations) proto.body).run k

section

variable {program : Program} {proto : Prototype} {signature : Signature} {maxIterations : Nat}

/-- Emission begins where the analysis has ended. -/
theorem run_body (s : Emitter) :
    (body program proto signature maxIterations).run.run s =
      let found := analysis program proto signature maxIterations s.knowledge
      (do
        let steps ← Emit.block ⟨program, found.1⟩ false proto.body
        return (found.1, steps) : Emit (Inference × List Step)).run.run
          { s with knowledge := found.2 } :=
  rfl

/-- Emission looks for return types as the analysis did. -/
theorem settled_analysis {k : Knowledge} (h : k.Sound program)
    (hproto : program.prototype? proto.ref = some proto)
    (hargs : ∀ t ∈ signature.args, t.Has k.shapes)
    (hupvalues : ∀ t ∈ signature.upvalues, t.Has k.shapes) (maxIterations : Nat) {e : Expr}
    (he : Stmt.Holds proto.body e) :
    let found := analysis program proto signature maxIterations k
    Inference.Settled (Scope.mk program found.1).returnsOf found e := by
  intro found
  obtain ⟨index, -, hindex⟩ := Program.exists_index hproto
  have hlimit : found.1.maxIterations = max maxIterations 1 := Inference.maxIterations_analyze ..
  have hsettled := Inference.settled_of_holds h hindex hargs hupvalues (max maxIterations 1)
    maxIterations he
  unfold Scope.returnsOf
  rw [hlimit]
  exact hsettled

end

/-- A compilation ends with the knowledge with which the emission of the body ends, but for the
journal. -/
theorem alike_compile {m m' : Machine} {engine : EngineId} {proto : Prototype}
    {signature : Signature} {result : Except CompileError Specialization} {k : Knowledge}
    (hrun : (compile engine proto signature).run.run m = (result, m'))
    (h : k.Alike ((body m.program proto signature
      (m.engine engine).config.maxInferenceIterations).run.run (start m engine)).2.knowledge) :
    k.Alike m'.knowledge := by
  unfold compile at hrun
  rw [run_get_bind] at hrun
  dsimp only at hrun
  rw [run_bind, run_emit] at hrun
  generalize (body m.program proto signature _).run.run (start m engine) = r at hrun h
  obtain ⟨outcome, s⟩ := r
  cases outcome with
  | error error =>
    cases hrun
    exact h
  | ok found =>
    cases hrun
    exact h.of_resolve (fun _ => rfl) rfl

/-- If a function has been compiled, every expression of its body can be emitted. -/
theorem exists_code_of_holds {m m' : Machine} {engine : EngineId} {proto : Prototype}
    {signature : Signature} {spec : Specialization}
    (hcompile : (compile engine proto signature).run.run m = (.ok spec, m')) {scope : Scope}
    (hprogram : scope.program = m.program) (hproto : scope.proto = proto) {e : Expr}
    (he : Stmt.Holds proto.body e) (s : Emitter) :
    ∃ c, ((Emit.expr scope e).run.run s).1 = .ok c := by
  have hlegal := fault?_compile m engine proto signature
  rw [hcompile] at hlegal
  have hexpr := Emit.reports_expr scope e s
  rw [hprogram, hproto, Use.firstFault_eq_none_iff.mpr fun use huse =>
    Use.firstFault_eq_none_iff.mp hlegal.symm use (he.mem_blockUses huse false)] at hexpr
  cases hresult : ((Emit.expr scope e).run.run s).1 with
  | error error =>
    rw [hresult] at hexpr
    cases hexpr
  | ok c => exact ⟨c, rfl⟩

end Compile

/-- **Emission and inference type every expression alike.**  Let a function be compiled, with any
signature, in any machine that a host can make.  From the end of its analysis to the end of its
emission, every shape keeps its representative and the same return types are remembered.  At any
time in between, every expression of the body can be emitted, and the code has exactly the type
that inference gives for the expression under the result of the analysis.  The code is of an
unboxed integer, float or boolean if and only if that is the type, and otherwise of a boxed
value. -/
theorem emitted_as_inferred {m : Machine} (hm : Machine.empty.Becomes m) {proto : Prototype}
    (hproto : m.program.prototype? proto.ref = some proto) {signature : Signature}
    (hargs : ∀ t ∈ signature.args, t.Has m.shapes)
    (hupvalues : ∀ t ∈ signature.upvalues, t.Has m.shapes) {engine : EngineId}
    {spec : Specialization} {m' : Machine}
    (hcompile : (Compile.compile engine proto signature).run.run m = (.ok spec, m')) :
    let found := Compile.analysis m.program proto signature
      (m.engine engine).config.maxInferenceIterations m.knowledge
    let scope : Scope := ⟨m.program, found.1⟩
    found.2.Alike m'.knowledge ∧
    (∀ st ∈ Stmt.blockListed proto.body, ∀ (inLoop : Bool) (s : Emitter),
      found.2.Alike s.knowledge →
        found.2.Alike ((Emit.stmt scope inLoop st).run.run s).2.knowledge) ∧
    ∀ e, Stmt.Holds proto.body e → ∀ s : Emitter, found.2.Alike s.knowledge →
      ∃ c s', (Emit.expr scope e).run.run s = (.ok c, s') ∧ found.2.Alike s'.knowledge ∧
        ∀ k, found.2.Alike k →
          c.Realizes ((Inference.infer scope.returnsOf scope.types e).run k).1 ∧
            found.2.Alike ((Inference.infer scope.returnsOf scope.types e).run k).2 := by
  intro found scope
  have hsound : m.knowledge.Sound m.program := (hm.advances Machine.sound_empty).sound.knowledge
  have hprogram : scope.program = m.program := rfl
  have hscope : scope.proto = proto := Inference.proto_analyze ..
  have hsettled {e : Expr} (he : Stmt.Holds proto.body e) :
      Inference.Settled scope.returnsOf (scope.types, found.2) e :=
    Compile.settled_analysis hsound hproto hargs hupvalues _ he
  have hblock : Stmt.BlockEvery (Emit.OperandsSettled scope found.2) proto.body :=
    Stmt.blockEvery_iff.mpr fun st hst operand hoperand =>
      hsettled ⟨st, hst, operand, hoperand, .self⟩
  refine ⟨Compile.alike_compile hcompile ?_, fun st hst inLoop s hs => ?_, fun e he s hs => ?_⟩
  · rw [Compile.run_body]
    have hbody : Emit.Settles found.2 (do
        let steps ← Emit.block scope false proto.body
        return (found.1, steps)) fun _ => True :=
      (Emit.settles_block scope false proto.body hblock).bind fun _ _ => .pure trivial
    exact (hbody (.refl _)).1
  · exact (Emit.settles_stmt scope inLoop st (hblock.of_mem hst) hs).1
  · obtain ⟨hkept, hcode⟩ := Emit.settles_expr scope e (hsettled he) hs
    obtain ⟨c, hc⟩ := Compile.exists_code_of_holds hcompile hprogram hscope he s
    obtain ⟨htype, hfits⟩ := hcode hc
    refine ⟨c, _, Prod.ext hc rfl, hkept, fun k hk => ?_⟩
    obtain ⟨hlate, hinfer⟩ := Inference.settles_infer e (hsettled he) hk
    rw [hinfer, ← htype]
    exact ⟨hfits.realizes, hlate⟩

/-- A function that chooses between a new table and its argument, and then calls another. -/
def Stmt.chooseTable : List Stmt :=
  [.assign 2 (.logical .or (.table 1 []) (.slot 1)), .assign 3 (.call (.slot 0) []),
    .ret [.slot 2, .slot 3]]

/-- A function with a local that is assigned tables of two shapes, which are merged when it is
analysed. -/
def Stmt.countTables : List Stmt :=
  [.declare 0 (some (.upvalue 0)), .assign 0 (.table 2 []), .ret [.literal (.int 7)]]

/-- A host makes two shapes, the two functions, and an engine. -/
def Operation.chooseTable : List Operation :=
  [.changeShape .make, .changeShape .make,
    .addPrototype "choose" ["f", "a", "b", "n"] [] [] Stmt.chooseTable,
    .addPrototype "count" [] ["t"] [⟨"u", some (.tableOf 1), false⟩] Stmt.countTables,
    .addEngine .default]

theorem Operation.allValid_chooseTable : AllValid .empty chooseTable := by
  have hmake (m : Machine) : Valid m (.changeShape .make) :=
    fun _ h => absurd h List.not_mem_nil
  have hscope (m : Machine) (h : m.shapes.states.size = 2) :
      Stmt.BlockEvery (Stmt.Scoped m.program m.shapes) Stmt.chooseTable ∧
        Stmt.BlockEvery (Stmt.Scoped m.program m.shapes) Stmt.countTables := by
    simp [Stmt.chooseTable, Stmt.countTables, Stmt.BlockEvery, Stmt.Every, Stmt.Scoped,
      Stmt.operands, Expr.Scoped, Expr.mentions, Expr.listMentions, Expr.entryMentions,
      Mention.Exists, Shapes.Has, h]
  refine ⟨hmake _, hmake _, ⟨(hscope _ ?_).1, fun _ h => absurd h List.not_mem_nil⟩,
    ⟨(hscope _ ?_).2, ?_⟩, trivial, trivial⟩
  · decide +kernel
  · decide +kernel
  · intro template htemplate
    rw [List.mem_singleton.mp htemplate]
    exact ⟨by decide, by decide +kernel⟩

/-- Before the analysis both tables have the same shape, and so does the choice between them.  The
call merges this shape with another after the choice was looked at.  From then on nothing is known
about the choice, and inference and emission both say so.  The call gives an unboxed integer. -/
theorem emitted_as_inferred_chooseTable :
    let m := Operation.run .empty Operation.chooseTable
    let proto := Prototype.ofParts ⟨1, "choose"⟩ ["f", "a", "b", "n"] [] [] Stmt.chooseTable
    let signature : Signature :=
      ⟨[.function ⟨2, "count"⟩, .tableOf 1, .tableOf 1, .integer], [], false⟩
    let found := Compile.analysis m.program proto signature
      (m.engine 0).config.maxInferenceIterations m.knowledge
    let scope : Scope := ⟨m.program, found.1⟩
    let choice : Expr := .logical .or (.table 1 []) (.slot 1)
    Machine.empty.Becomes m ∧ m.program.prototype? proto.ref = some proto ∧
    (∃ spec m', (Compile.compile 0 proto signature).run.run m = (.ok spec, m')) ∧
    ((Inference.infer scope.returnsOf scope.types choice).run m.knowledge).1 = .tableOf 1 ∧
    ∀ s : Emitter, found.2.Alike s.knowledge →
      (∃ c s', (Emit.expr scope choice).run.run s = (.ok c, s') ∧ c.Realizes .unknown) ∧
      ∃ c s', (Emit.expr scope (.call (.slot 0) [])).run.run s = (.ok c, s') ∧
        c.Realizes .integer := by
  intro m proto signature found scope choice
  have hm : Machine.empty.Becomes m :=
    .operate (.refl _) (.of_operations (fun _ _ => trivial) Operation.allValid_chooseTable)
  have hproto : m.program.prototype? proto.ref = some proto := rfl
  have hshape : m.shapes.Has 1 := ⟨by decide, by decide +kernel⟩
  have hargs : ∀ t ∈ signature.args, t.Has m.shapes := by simpa [signature, Ty.Has] using hshape
  have hcompile : ∃ spec m', (Compile.compile 0 proto signature).run.run m = (.ok spec, m') := by
    have hok : ((Compile.compile 0 proto signature).run.run m).1.toOption.isSome = true := by
      decide +kernel
    generalize (Compile.compile 0 proto signature).run.run m = r at hok
    obtain ⟨result, m'⟩ := r
    cases result with
    | error error => cases hok
    | ok spec => exact ⟨spec, m', rfl⟩
  obtain ⟨spec, m', hrun⟩ := hcompile
  have hnone : ∀ t ∈ signature.upvalues, t.Has m.shapes := fun _ h => absurd h List.not_mem_nil
  have htyped := (emitted_as_inferred hm hproto hargs hnone hrun).2.2
  have hcode {s : Emitter} (hs : found.2.Alike s.knowledge) {e : Expr} {type : Ty}
      (he : Stmt.Holds proto.body e)
      (htype : ((Inference.infer scope.returnsOf scope.types e).run found.2).1 = type) :
      ∃ c s', (Emit.expr scope e).run.run s = (.ok c, s') ∧ c.Realizes type := by
    obtain ⟨c, s', hemit, -, hinfer⟩ := htyped e he s hs
    exact ⟨c, s', hemit, htype ▸ (hinfer found.2 (.refl _)).1⟩
  refine ⟨hm, hproto, ⟨spec, m', hrun⟩, by decide +kernel, fun s hs =>
    ⟨hcode hs ?_ ?_, hcode hs ?_ ?_⟩⟩
  · exact ⟨.assign 2 choice, List.mem_cons_self .., choice, List.mem_cons_self .., .self⟩
  · decide +kernel
  · exact ⟨.assign 3 (.call (.slot 0) []), List.mem_cons_of_mem _ (List.mem_cons_self ..), _,
      List.mem_cons_self .., .self⟩
  · decide +kernel

end AdaptiveScript
