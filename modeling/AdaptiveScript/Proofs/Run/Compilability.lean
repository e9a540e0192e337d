import AdaptiveScript.Proofs.Emission.Faults
import AdaptiveScript.Proofs.Machine.Request
import AdaptiveScript.Proofs.Run.Operation

/-!
# Which functions can be compiled

Whether a function can be compiled is decided by its body (`Prototype.Decides`), not by the
signature, the engine, or what was learnt or compiled before.  A well-formed body has code under
every signature.  Any other body has it under none, and all signatures are told the same error.

For a compilation this is so in all machines.  A request may find code in a cache instead; in the
machines that a host can make, what is found there is code of this body, so the body is well formed.
-/

namespace AdaptiveScript

/-- The body of a function decides an outcome: there is code if the body is well formed, and
otherwise the error of the first use that is not legal. -/
structure Prototype.Decides (program : Program) (proto : Prototype)
    (outcome : Except CompileError Specialization) : Prop where
  ok_iff : (∃ spec, outcome = .ok spec) ↔ Stmt.BlockWellFormed program proto false proto.body
  error_iff : ∀ error, outcome = .error error ↔
    Use.firstFault program proto (Stmt.blockUses false proto.body) = some error

theorem Prototype.Decides.of_fault? {program : Program} {proto : Prototype}
    {outcome : Except CompileError Specialization}
    (h : fault? outcome = Use.firstFault program proto (Stmt.blockUses false proto.body)) :
    proto.Decides program outcome where
  ok_iff := by
    rw [Stmt.blockWellFormed_iff, ← Use.firstFault_eq_none_iff, ← h]
    cases outcome <;> simp [fault?]
  error_iff error := by
    rw [← h]
    cases outcome <;> simp [fault?]

namespace Compile

variable {m : Machine} {proto : Prototype}

/-- A compilation fails at the first use that is not legal. -/
theorem fault?_compile (m : Machine) (engine : EngineId) (proto : Prototype)
    (signature : Signature) : fault? ((compile engine proto signature).run.run m).1 =
      Use.firstFault m.program proto (Stmt.blockUses false proto.body) := by
  rw [← Emit.fault?_body m.program proto signature
    (m.engine engine).config.maxInferenceIterations (start m engine)]
  unfold compile
  rw [run_get_bind]
  dsimp only
  rw [run_bind, run_emit]
  generalize (body m.program proto signature _).run.run (start m engine) = r
  obtain ⟨result, s⟩ := r
  cases result <;> rfl

/-- What a request finds in the cache of a sound machine is code of the body. -/
theorem wellFormed_of_lookup? (h : m.Sound) (hproto : m.program.prototype? proto.ref = some proto)
    {signature : Signature} {spec : Specialization}
    (hlookup : (m.cache proto.ref).lookup? signature = some spec) :
    Stmt.BlockWellFormed m.program proto false proto.body := by
  obtain ⟨index, hid, hindex⟩ := Program.exists_index hproto
  have hmem : spec ∈ (m.caches.getD index .empty).entries := by
    have hcache : m.cache proto.ref = m.caches.getD index .empty := by simp [State.cache, hid]
    rw [hcache] at hlookup
    exact List.mem_of_find?_eq_some hlookup
  obtain ⟨hspec, other, Γ, returns, hvalid⟩ := h.specs index spec hmem
  have hsame : m.program.prototype? spec.proto = some proto := by
    rw [Program.prototype?_eq hspec, hindex]
  have hother : other = proto := Option.some.inj (hvalid.proto.symm.trans hsame)
  subst hother
  exact hvalid.emits.wellFormed

theorem decides_specialize (h : m.Sound) (hproto : m.program.prototype? proto.ref = some proto)
    (engine : EngineId) (signature : Signature) :
    proto.Decides m.program ((specialize engine proto signature).run.run m).1 := by
  refine .of_fault? ?_
  rw [run_specialize]
  cases hlookup : (m.cache proto.ref).lookup? signature with
  | some spec =>
    have hwf := wellFormed_of_lookup? h hproto hlookup
    rw [Stmt.blockWellFormed_iff, ← Use.firstFault_eq_none_iff] at hwf
    rw [run_serve_of_some hlookup, hwf]
    rfl
  | none =>
    have hcompile := fault?_compile (begun m engine proto signature) engine proto signature
    rw [run_serve_of_none hlookup]
    generalize (compile engine proto signature).run.run _ = r at hcompile
    obtain ⟨result, m'⟩ := r
    cases result <;> exact hcompile

theorem decides_specializeFor (h : m.Sound)
    (hproto : m.program.prototype? proto.ref = some proto) (engine : EngineId)
    (args upvalues : List Ty) (truncate : Bool) :
    proto.Decides m.program ((specializeFor engine proto args upvalues truncate).run.run m).1 := by
  unfold specializeFor
  rw [run_get_bind]
  exact decides_specialize h hproto engine _

end Compile

/-- **The body decides whether a function can be compiled**, whatever the engine, the signature,
the caches and the shapes are: there is code if every local and upvalue that the body uses is one
of the function, every literal captures as many variables as its prototype has upvalues, and every
break stands in a loop.  Otherwise the error is that of the first node for which this fails, the
same for all signatures.  Compiling is decided so in every machine, and requests in every machine
that a host can make, for all prototypes of its program. -/
theorem specialize_decided_by_body (m : Machine) (engine : EngineId) (proto : Prototype) :
    (∀ signature : Signature,
      proto.Decides m.program ((Compile.compile engine proto signature).run.run m).1) ∧
    (Machine.empty.Becomes m → m.program.prototype? proto.ref = some proto →
      (∀ signature : Signature,
        proto.Decides m.program ((Compile.specialize engine proto signature).run.run m).1) ∧
      ∀ (args upvalues : List Ty) (truncate : Bool), proto.Decides m.program
        ((Compile.specializeFor engine proto args upvalues truncate).run.run m).1) := by
  refine ⟨fun signature => .of_fault? (Compile.fault?_compile m engine proto signature),
    fun hm hproto => ?_⟩
  have hsound : m.Sound := (hm.advances Machine.sound_empty).sound
  exact ⟨Compile.decides_specialize hsound hproto engine,
    Compile.decides_specializeFor hsound hproto engine⟩

/-- Two functions that return their argument.  The second goes on with a break outside of loops and
an assignment to a local that it does not have.  This is never reached, yet the function cannot be
compiled, and the error is about the break. -/
theorem specialize_decided_by_body_unreachable :
    let body : List Stmt := [.ret [.slot 0], .breakLoop, .assign 4 (.slot 9)]
    let m := Operation.run .empty
      (Operation.makeIdentity .default [] ++ [.addPrototype "stray" ["x"] [] [] body])
    let id := Prototype.ofParts ⟨1, "id"⟩ ["x"] [] [] [.ret [.slot 0]]
    let stray := Prototype.ofParts ⟨2, "stray"⟩ ["x"] [] [] body
    Machine.empty.Becomes m ∧ m.program.prototype? id.ref = some id ∧
      m.program.prototype? stray.ref = some stray ∧
      ∀ (args upvalues : List Ty) (truncate : Bool),
        (∃ spec, ((Compile.specializeFor 0 id args upvalues truncate).run.run m).1 = .ok spec) ∧
        ((Compile.specializeFor 0 stray args upvalues truncate).run.run m).1 =
          .error (.breakOutsideLoop "stray") := by
  intro body m id stray
  have hm : Machine.empty.Becomes m := by
    refine .operate (.refl _) (.of_operations (fun _ _ => trivial) ?_)
    refine Operation.allValid_concat.mpr
      ⟨Operation.allValid_makeIdentity .default (by simp), ?_, nofun⟩
    simp [body, Stmt.BlockEvery, Stmt.Every, Stmt.Scoped, Stmt.operands, Expr.Scoped, Expr.mentions]
  refine ⟨hm, rfl, rfl, fun args upvalues truncate => ⟨?_, ?_⟩⟩
  · have hid := ((specialize_decided_by_body m 0 id).2 hm rfl).2 args upvalues truncate
    exact hid.ok_iff.mpr (Stmt.blockWellFormed_iff false _ |>.mpr (by decide))
  · have hstray := ((specialize_decided_by_body m 0 stray).2 hm rfl).2 args upvalues truncate
    exact (hstray.error_iff _).mpr (by decide)

end AdaptiveScript
