import AdaptiveScript.Proofs.Linking.Entry
import AdaptiveScript.Proofs.Run.SiteSteps

/-!
# A run, as far as counting goes

Whatever code runs, three things happen to what is counted: nothing, a request for a
specialization, or an entry into the linker.  Each is a move (`Machine.Move`), and running code is
a sequence of moves (`does_eval`, `passes_exec`), if the calls that it makes are.  This holds for
code of any kind in any machine in which everything has its place; types play no part in it.

A piece of code runs in one engine and goes through call sites that exist (`Machine.Ready`), and
stays ready while it runs, since neither engines nor sites are ever lost.  So what is said of code
(`Does`) is said for all machines that are ready for it.
-/

namespace AdaptiveScript

namespace Machine

variable {m m' : Machine}

/-! ## Moves -/

/-- What happens in a run to what is counted. -/
inductive Move (m : Machine) : Machine → Prop
  /-- Nothing that is counted changes. -/
  | calm {m' : Machine} : m.Calm m' → Move m m'
  /-- A specialization is asked for. -/
  | ask {m' : Machine} {engine : EngineId} : engine < m.engines.size → m.Asks engine m' → Move m m'
  /-- A call enters the linker. -/
  | entry {m₀ m' : Machine} {engine : EngineId} {id : SiteId} {callee : Value} {args : List Value}
    {result : Except Stop Linking.Outcome} : engine < m.engines.size →
    0 < id ∧ id ≤ m.sites.sites.size → Linking.Relinks m engine id callee args m₀ →
    (Linking.enter (.of m) engine id callee args).run.run m₀ = (result, m') → Move m m'

end Machine

namespace Linking

variable {m m₀ : Machine} {engine : EngineId} {id : SiteId} {callee : Value} {args : List Value}

theorem Relinks.housed (h : Relinks m engine id callee args m₀) (hm : m.Housed) : m₀.Housed := by
  cases h with
  | unlinked => exact hm
  | guardFailed => exact (Machine.Calm.note _).housed (hm.modifyEngine engine _)
  | rejected => exact (Machine.Calm.note _).housed (hm.modifyEngine engine _)

theorem Relinks.engines_eq (h : Relinks m engine id callee args m₀) :
    m₀.engines.size = m.engines.size := by
  cases h with
  | unlinked => rfl
  | guardFailed => exact Array.size_modify
  | rejected => exact Array.size_modify

end Linking

namespace Machine

variable {m m' : Machine}

namespace Move

theorem housed (h : m.Move m') (hm : m.Housed) : m'.Housed := by
  cases h with
  | calm hcalm => exact hcalm.housed hm
  | ask _ hasks => exact hasks.housed hm
  | entry _ _ hrelinks hrun =>
    have hm₀ := hrelinks.housed hm
    obtain ⟨m₁, hlinks, hstate, -, -⟩ := Linking.Links.of_enter hm₀ hrun
    rw [hstate]
    exact hlinks.housed hm₀

theorem engines_le (h : m.Move m') (hm : m.Housed) : m.engines.size ≤ m'.engines.size := by
  cases h with
  | calm hcalm => exact hcalm.engines_le
  | ask _ hasks => exact Nat.le_of_eq hasks.engines_eq.symm
  | entry _ _ hrelinks hrun =>
    obtain ⟨m₁, hlinks, hstate, -, -⟩ := Linking.Links.of_enter (hrelinks.housed hm) hrun
    rw [hstate]
    exact Nat.le_of_eq (hlinks.engines_eq.trans hrelinks.engines_eq).symm

theorem sites_le (h : m.Move m') (hm : m.Housed) : m.sites.sites.size ≤ m'.sites.sites.size := by
  cases h with
  | calm hcalm => exact hcalm.sites.size_le
  | ask _ hasks => exact hasks.undisturbed.sites.size_le
  | entry _ _ hrelinks hrun =>
    obtain ⟨m₁, hlinks, hstate, -, -⟩ := Linking.Links.of_enter (hrelinks.housed hm) hrun
    rw [hstate, ← hrelinks.sites]
    exact hlinks.sites_le

end Move

/-- What happens in a run, move by move. -/
abbrev Moves : Machine → Machine → Prop :=
  Relation.ReflTransGen Move

instance : Trans Moves Moves Moves :=
  ⟨Relation.ReflTransGen.trans⟩

namespace Moves

theorem of_calm (h : m.Calm m') : m.Moves m' :=
  .single (.calm h)

theorem of_mayAsk {engine : EngineId} (hengine : engine < m.engines.size)
    (h : m.MayAsk engine m') : m.Moves m' := by
  rcases h with rfl | hasks
  · exact .refl
  · exact .single (.ask hengine hasks)

/-- Everything keeps its place, and no engine and no site is lost. -/
theorem keeps (h : m.Moves m') (hm : m.Housed) : m'.Housed ∧ m.engines.size ≤ m'.engines.size ∧
    m.sites.sites.size ≤ m'.sites.sites.size := by
  induction h with
  | refl => exact ⟨hm, Nat.le_refl _, Nat.le_refl _⟩
  | tail _ hmove ih =>
    obtain ⟨hhoused, hengines, hsites⟩ := ih
    exact ⟨hmove.housed hhoused, Nat.le_trans hengines (hmove.engines_le hhoused),
      Nat.le_trans hsites (hmove.sites_le hhoused)⟩

end Moves

end Machine

theorem Linking.Obtains.moves {m m' : Machine} {engine : EngineId}
    {result : Except Stop Specialization} (h : Obtains m engine result m')
    (hengine : engine < m.engines.size) : m.Moves m' := by
  cases h with
  | code hasks _ => exact .single (.ask hengine hasks)
  | error hasks => exact .of_mayAsk hengine hasks

namespace Machine

variable {m m' : Machine}

/-! ## Machines that are ready for code -/

/-- Code can run that belongs to an engine and goes through given sites. -/
structure Ready (m : Machine) (engine : EngineId) (ids : List SiteId) : Prop where
  housed : m.Housed
  engine : engine < m.engines.size
  sites : m.sites.HasAll ids

theorem Ready.mono {engine : EngineId} {ids : List SiteId} (h : m.Ready engine ids)
    (hmoves : m.Moves m') : m'.Ready engine ids := by
  obtain ⟨hhoused, hengines, hsites⟩ := hmoves.keeps h.housed
  exact ⟨hhoused, Nat.lt_of_lt_of_le h.engine hengines, h.sites.mono hsites⟩

/-- A computation makes moves, and its result has a property. -/
abbrev Performs {α : Type} (m : Machine) (x : Run α) (Q : α → Machine → Prop) : Prop :=
  Yields Moves m x False Q

theorem Performs.of_moves {α : Type} {x : Run α} (h : m.Moves (x.run.run m).2) :
    m.Performs x fun _ _ => True :=
  ⟨h, fun _ => trivial, False.elim⟩

end Machine

/-! ## What code does -/

/-- In every machine that is ready for it, a computation makes moves, and its result has a
property. -/
def Does {α : Type} (engine : EngineId) (ids : List SiteId) (x : Run α) (Q : α → Prop) : Prop :=
  ∀ m : Machine, m.Ready engine ids → m.Performs x fun a _ => Q a

namespace Does

variable {α β : Type} {engine : EngineId} {ids : List SiteId} {Q : α → Prop} {Q' : β → Prop}

theorem pure {a : α} (h : Q a) : Does engine ids (pure a) Q :=
  fun _ _ => .pure .refl h

theorem throw (stop : Stop) : Does engine ids (throw stop : Run α) Q :=
  fun _ _ => .throw .refl not_false

theorem ofExcept (result : Except RuntimeError α) :
    Does engine ids (Run.ofExcept result) fun _ => True := by
  cases result with
  | error e => exact throw _
  | ok a => exact pure trivial

theorem bind {x : Run α} {f : α → Run β} (hx : Does engine ids x Q)
    (hf : ∀ a, Q a → Does engine ids (f a) Q') : Does engine ids (x >>= f) Q' :=
  fun m hm => (hx m hm).bind False.elim fun a _ hmoves hq => hf a hq _ (hm.mono hmoves)

/-- A computation whose result does not matter comes first. -/
theorem andThen {x : Run α} {f : α → Run β} (hx : Does engine ids x fun _ => True)
    (hf : ∀ a, Does engine ids (f a) Q') : Does engine ids (x >>= f) Q' :=
  hx.bind fun a _ => hf a

/-- A look at the machine comes first. -/
theorem get {f : Machine → Run β}
    (h : ∀ m : Machine, m.Ready engine ids → m.Performs (f m) fun b _ => Q' b) :
    Does engine ids (get >>= f) Q' :=
  fun m hm => .of_get (h m hm)

theorem heap {f : Heap → Run β} (h : ∀ heap, Does engine ids (f heap) Q') :
    Does engine ids (Run.heap >>= f) Q' :=
  fun m hm => .of_get (h m.heap m hm)

/-- A change after which nothing that is counted is different. -/
theorem modify {f : Machine → Machine} (h : ∀ m : Machine, m.Ready engine ids → m.Calm (f m)) :
    Does engine ids (modify f : Run PUnit) fun _ => True :=
  fun m hm => (Yields.modify (.of_calm (h m hm))).mono id fun _ _ _ _ => trivial

theorem shortCircuit (op : LogicalOp) (isTrue : α → Bool) (left : α) {right : Run α}
    (h : Does engine ids right fun _ => True) :
    Does engine ids (shortCircuit op isTrue left right) fun _ => True := by
  cases op <;> unfold AdaptiveScript.shortCircuit <;> dsimp only <;> split
  · exact h
  · exact pure trivial
  · exact pure trivial
  · exact h

/-- Two computations come first, each with sites of its own. -/
theorem both {γ : Type} {x : Run α} {y : Run γ} {f : α → γ → Run β} {first second : List SiteId}
    (h : first ++ second ⊆ ids) (hx : first ⊆ ids → Does engine ids x fun _ => True)
    (hy : second ⊆ ids → Does engine ids y fun _ => True)
    (hf : ∀ a c, Does engine ids (f a c) Q') : Does engine ids (do
      let a ← x
      let c ← y
      f a c) Q' := by
  rw [List.append_subset] at h
  exact (hx h.1).andThen fun a => (hy h.2).andThen fun c => hf a c

/-- A change of the shared objects that makes no functions. -/
theorem setHeap {f : Heap → Heap} {a : α} (h : ∀ heap, (f heap).functions = heap.functions)
    (ha : Q a) : Does engine ids (do
      Run.setHeap (f (← Run.heap))
      return a) Q := by
  intro m _
  refine ⟨.of_calm (.setHeap (h m.heap)), ?_, False.elim⟩
  rintro _ ⟨⟩
  exact ha

/-- A change of one table, if it can be made. -/
theorem storeHeap {f : Heap → Except RuntimeError Heap} {a : α}
    (h : ∀ heap heap', f heap = .ok heap' → ∃ ref t, heap' = heap.setTable ref t) (ha : Q a) :
    Does engine ids (do
      Run.setHeap (← Run.ofExcept (f (← Run.heap)))
      return a) Q := by
  intro m _
  refine .of_get ?_
  cases hf : f m.heap with
  | error e => exact .throw .refl not_false
  | ok heap =>
    obtain ⟨ref, t, rfl⟩ := h _ _ hf
    refine ⟨.of_calm (.setHeap rfl), ?_, False.elim⟩
    rintro _ ⟨⟩
    exact ha

theorem readLocal (frame : Frame) (slot : Nat) :
    Does engine ids (Run.readLocal frame slot) fun _ => True :=
  fun _ _ => ⟨.of_calm (.observe _ _), fun _ => trivial, False.elim⟩

theorem newTable (t : Table) : Does engine ids (Run.newTable t) fun _ => True :=
  fun _ _ => ⟨.of_calm (.setHeap rfl), fun _ => trivial, False.elim⟩

end Does

/-! ## Expressions -/

/-- Calls through the sites of some code make moves. -/
def Caller.Moves (caller : Caller) (engine : EngineId) (ids : List SiteId) : Prop :=
  ∀ id ∈ ids, ∀ callee args, Does engine ids (caller engine id callee args) fun _ => True

section Code

variable {caller : Caller} {frame : Frame} {ids : List SiteId}

mutual

/-- Code of an expression makes moves. -/
theorem does_eval (hcaller : caller.Moves frame.engine ids) : ∀ {r : Rep} (c : Code r),
    c.sites ⊆ ids → Does frame.engine ids (eval caller frame c) fun _ => True
  | _, .nil, _ => by
    rw [eval]
    exact .pure trivial
  | _, .bool b, _ => by
    rw [eval]
    exact .pure trivial
  | _, .int n, _ => by
    rw [eval]
    exact .pure trivial
  | _, .float x, _ => by
    rw [eval]
    exact .pure trivial
  | _, .constant index, _ => by
    rw [eval]
    exact .pure trivial
  | _, .slot index, _ => by
    rw [eval]
    exact .readLocal frame index
  | _, .upvalue index, _ => by
    rw [eval]
    exact .andThen (.ofExcept _) fun cell => .heap fun _ => .pure trivial
  | _, .global name, _ => by
    rw [eval]
    exact .get fun m _ => .pure .refl trivial
  | _, .box r c, h => by
    rw [Code.sites] at h
    rw [eval]
    exact (does_eval hcaller c h).andThen fun _ => .pure trivial
  | _, .unbox r c, h => by
    rw [Code.sites] at h
    rw [eval]
    exact (does_eval hcaller c h).andThen fun _ => .ofExcept _
  | _, .widen r c, h => by
    rw [Code.sites] at h
    rw [eval]
    exact (does_eval hcaller c h).andThen fun _ => .ofExcept _
  | _, .truthy r c, h => by
    rw [Code.sites] at h
    rw [eval]
    exact (does_eval hcaller c h).andThen fun _ => .pure trivial
  | _, .intArith op a b, h => by
    rw [Code.sites] at h
    rw [eval]
    exact .both h (does_eval hcaller a) (does_eval hcaller b) fun _ _ => .ofExcept _
  | _, .floatArith op a b, h => by
    rw [Code.sites] at h
    rw [eval]
    exact .both h (does_eval hcaller a) (does_eval hcaller b) fun _ _ => .pure trivial
  | _, .intCompare op a b, h => by
    rw [Code.sites] at h
    rw [eval]
    exact .both h (does_eval hcaller a) (does_eval hcaller b) fun _ _ => .pure trivial
  | _, .intFloatCompare op a b, h => by
    rw [Code.sites] at h
    rw [eval]
    exact .both h (does_eval hcaller a) (does_eval hcaller b) fun _ _ => .pure trivial
  | _, .floatIntCompare op a b, h => by
    rw [Code.sites] at h
    rw [eval]
    exact .both h (does_eval hcaller a) (does_eval hcaller b) fun _ _ => .pure trivial
  | _, .floatCompare op a b, h => by
    rw [Code.sites] at h
    rw [eval]
    exact .both h (does_eval hcaller a) (does_eval hcaller b) fun _ _ => .pure trivial
  | _, .same op a b, h => by
    rw [Code.sites] at h
    rw [eval]
    exact .both h (does_eval hcaller a) (does_eval hcaller b) fun _ _ => .pure trivial
  | _, .order op a b, h => by
    rw [Code.sites] at h
    rw [eval]
    exact .both h (does_eval hcaller a) (does_eval hcaller b) fun _ _ => .ofExcept _
  | _, .concat a b, h => by
    rw [Code.sites] at h
    rw [eval]
    exact .both h (does_eval hcaller a) (does_eval hcaller b) fun _ _ => .ofExcept _
  | _, .binary op a b, h => by
    rw [Code.sites] at h
    rw [eval]
    exact .both h (does_eval hcaller a) (does_eval hcaller b) fun _ _ => .ofExcept _
  | _, .boolLogical op a b, h => by
    rw [Code.sites, List.append_subset] at h
    rw [eval]
    exact (does_eval hcaller a h.1).andThen fun x =>
      .shortCircuit op id x (does_eval hcaller b h.2)
  | _, .logical op a b, h => by
    rw [Code.sites, List.append_subset] at h
    rw [eval]
    exact (does_eval hcaller a h.1).andThen fun x =>
      .shortCircuit op Value.isTruthy x (does_eval hcaller b h.2)
  | _, .negInt c, h => by
    rw [Code.sites] at h
    rw [eval]
    exact (does_eval hcaller c h).andThen fun _ => .pure trivial
  | _, .negFloat c, h => by
    rw [Code.sites] at h
    rw [eval]
    exact (does_eval hcaller c h).andThen fun _ => .pure trivial
  | _, .not c, h => by
    rw [Code.sites] at h
    rw [eval]
    exact (does_eval hcaller c h).andThen fun _ => .pure trivial
  | _, .unary op c, h => by
    rw [Code.sites] at h
    rw [eval]
    exact (does_eval hcaller c h).andThen fun _ => .heap fun _ => .ofExcept _
  | _, .field f target, h => by
    rw [Code.sites] at h
    rw [eval]
    exact (does_eval hcaller target h).andThen fun _ => .heap fun _ => .ofExcept _
  | _, .index target key, h => by
    rw [Code.sites] at h
    rw [eval]
    exact .both h (does_eval hcaller target) (does_eval hcaller key)
      fun _ _ => .heap fun _ => .ofExcept _
  | _, .first call, h => by
    rw [Code.sites] at h
    rw [eval]
    exact (does_evalCall hcaller call h).andThen fun _ => .pure trivial
  | _, .function proto captures, _ => by
    rw [eval]
    refine .andThen (.ofExcept _) fun cells => fun m hm => ?_
    -- the closure belongs to the engine that the code runs in
    refine ⟨.of_calm (.addFunction proto.name ?_), fun _ => trivial, False.elim⟩
    rintro _ ⟨⟩
    exact hm.engine
  | _, .table layout inits, h => by
    rw [Code.sites] at h
    rw [eval]
    exact (does_evalInits hcaller inits h 1 _).andThen fun t => .newTable t

/-- Code of a call makes moves. -/
theorem does_evalCall (hcaller : caller.Moves frame.engine ids) : ∀ call : CallCode,
    call.sites ⊆ ids → Does frame.engine ids (evalCall caller frame call) fun _ => True
  | .mk site callee args, h => by
    rw [CallCode.sites, List.cons_subset, List.append_subset] at h
    rw [evalCall]
    exact (does_eval hcaller callee h.2.1).andThen fun f =>
      (does_evalAll hcaller args h.2.2).andThen fun vs => hcaller site h.1 f vs

/-- Code of some expressions makes moves. -/
theorem does_evalAll (hcaller : caller.Moves frame.engine ids) : ∀ cs : List (Code .value),
    Code.allSites cs ⊆ ids → Does frame.engine ids (evalAll caller frame cs) fun _ => True
  | [], _ => by
    rw [evalAll]
    exact .pure trivial
  | c :: cs, h => by
    rw [Code.allSites, List.append_subset] at h
    rw [evalAll]
    exact (does_eval hcaller c h.1).andThen fun _ =>
      (does_evalAll hcaller cs h.2).andThen fun _ => .pure trivial

/-- The entries of a table constructor make moves. -/
theorem does_evalInits (hcaller : caller.Moves frame.engine ids) : ∀ inits : List Init,
    Init.allSites inits ⊆ ids → ∀ (next : Int64) (t : Table),
      Does frame.engine ids (evalInits caller frame inits next t) fun _ => True
  | [], _, next, t => by
    rw [evalInits]
    exact .pure trivial
  | .slot slot value :: rest, h, next, t => by
    rw [Init.allSites, List.append_subset] at h
    rw [evalInits]
    exact (does_eval hcaller value h.1).andThen fun _ =>
      .andThen (.ofExcept _) fun _ => does_evalInits hcaller rest h.2 _ _
  | .named name value :: rest, h, next, t => by
    rw [Init.allSites, List.append_subset] at h
    rw [evalInits]
    exact (does_eval hcaller value h.1).andThen fun _ => does_evalInits hcaller rest h.2 _ _
  | .keyed key value :: rest, h, next, t => by
    rw [Init.allSites, List.append_subset] at h
    rw [evalInits]
    exact .both h.1 (does_eval hcaller key) (does_eval hcaller value) fun _ _ =>
      .andThen (.ofExcept _) fun _ => does_evalInits hcaller rest h.2 _ _
  | .positional value :: rest, h, next, t => by
    rw [Init.allSites, List.append_subset] at h
    rw [evalInits]
    exact (does_eval hcaller value h.1).andThen fun _ => does_evalInits hcaller rest h.2 _ _

end

end Code

/-! ## Statements -/

/-- What a body does: it makes moves and stays in its engine. -/
def Passes (engine : EngineId) (ids : List SiteId) (body : Frame → Run (Flow × Frame)) : Prop :=
  ∀ frame, frame.engine = engine → Does engine ids (body frame) fun out => out.2.engine = engine

section Statements

variable {engine : EngineId} {ids : List SiteId}

theorem does_declareLocal (slot : Nat) (v : Value) {frame : Frame} (h : frame.engine = engine) :
    Does engine ids (declareLocal slot v frame) fun frame' => frame'.engine = engine := by
  intro m _
  refine ⟨.of_calm (.setHeap (Frame.cellsOnly_declare frame m.heap slot v).functions), ?_,
    False.elim⟩
  rintro _ ⟨⟩
  exact (Frame.sets_declare frame m.heap slot v).engine.trans h

theorem does_writeLocal (slot : Nat) (v : Value) {frame : Frame} (h : frame.engine = engine) :
    Does engine ids (writeLocal slot v frame) fun frame' => frame'.engine = engine := by
  intro m _
  refine ⟨.of_calm (.setHeap (Frame.cellsOnly_write frame m.heap slot v).functions), ?_, False.elim⟩
  rintro _ ⟨⟩
  exact (Frame.sets_write frame m.heap slot v).engine.trans h

theorem does_afterRound {again : Frame → Run (Flow × Frame)} (hagain : Passes engine ids again)
    {out : Flow × Frame} (h : out.2.engine = engine) :
    Does engine ids (afterRound again out) fun out => out.2.engine = engine := by
  obtain ⟨flow, frame⟩ := out
  cases flow with
  | normal => exact hagain frame h
  | leave => exact .pure h
  | ret values => exact .pure h

section Loops

variable {body : Frame → Run (Flow × Frame)} (hbody : Passes engine ids body)
include hbody

theorem passes_whileLoop {cond : Frame → Run Bool}
    (hcond : ∀ frame, frame.engine = engine → Does engine ids (cond frame) fun _ => True)
    (rounds : Nat) : Passes engine ids (whileLoop cond body rounds) := by
  induction rounds with
  | zero => exact fun _ _ => .throw _
  | succ rounds ih =>
    intro frame hframe
    rw [whileLoop]
    refine (hcond frame hframe).andThen fun holds => ?_
    split
    · exact (hbody frame hframe).bind fun out hout => does_afterRound ih hout
    · exact .pure hframe

theorem passes_intLoop (slot : Nat) (step : Int) (count : Nat) :
    ∀ i, Passes engine ids (intLoop slot body step count i) := by
  induction count with
  | zero => exact fun _ _ hframe => .pure hframe
  | succ count ih =>
    intro i frame hframe
    rw [intLoop]
    exact (does_declareLocal slot _ hframe).bind fun frame' hframe' =>
      (hbody frame' hframe').bind fun out hout => does_afterRound (ih (i + step)) hout

theorem passes_floatLoop (slot : Nat) (limit step : Float) (rounds : Nat) :
    ∀ x, Passes engine ids (floatLoop slot body limit step rounds x) := by
  induction rounds with
  | zero => exact fun _ _ _ => .throw _
  | succ rounds ih =>
    intro x frame hframe
    rw [floatLoop]
    split
    · exact (does_declareLocal slot _ hframe).bind fun frame' hframe' =>
        (hbody frame' hframe').bind fun out hout => does_afterRound (ih (x + step)) hout
    · exact .pure hframe

theorem passes_rangeLoop (slot : Nat) (rounds : Nat) (range : Range) :
    Passes engine ids (rangeLoop slot body rounds range) := by
  intro frame hframe
  cases range with
  | int start limit step =>
    rw [rangeLoop]
    split
    · exact .throw _
    · refine .andThen (.ofExcept _) fun bound => ?_
      cases bound with
      | none => exact .pure hframe
      | some bound => exact passes_intLoop hbody slot _ _ _ frame hframe
  | float start limit step =>
    rw [rangeLoop]
    split
    · exact .throw _
    · exact passes_floatLoop hbody slot limit step rounds start frame hframe

end Loops

theorem does_evalRange {caller : Caller} {frame : Frame} (hcaller : caller.Moves frame.engine ids)
    (range : RangeCode) (h : range.sites ⊆ ids) :
    Does frame.engine ids (evalRange caller frame range) fun _ => True := by
  cases range with
  | int start limit step =>
    rw [RangeCode.sites, List.append_subset] at h
    exact .both h.1 (does_eval hcaller start) (does_eval hcaller limit) fun _ _ =>
      (does_eval hcaller step h.2).andThen fun _ => .pure trivial
  | float start limit step =>
    rw [RangeCode.sites, List.append_subset] at h
    exact .both h.1 (does_eval hcaller start) (does_eval hcaller limit) fun _ _ =>
      (does_eval hcaller step h.2).andThen fun _ => .pure trivial
  | dynamic start limit step =>
    rw [RangeCode.sites, List.append_subset] at h
    exact .both h.1 (does_eval hcaller start) (does_eval hcaller limit) fun _ _ =>
      (does_eval hcaller step h.2).andThen fun _ => .ofExcept _

mutual

/-- Code of a statement makes moves. -/
theorem passes_exec {engine : EngineId} {caller : Caller} (hcaller : caller.Moves engine ids)
    (rounds : Nat) : ∀ s : Step, s.sites ⊆ ids → Passes engine ids (exec caller rounds s)
  | .declare slot value, h, frame, rfl => by
    rw [Step.sites] at h
    rw [exec]
    exact (does_eval hcaller value h).andThen fun v =>
      (does_declareLocal slot v rfl).bind fun _ hframe => .pure hframe
  | .assign slot value, h, frame, rfl => by
    rw [Step.sites] at h
    rw [exec]
    exact (does_eval hcaller value h).andThen fun v =>
      (does_writeLocal slot v rfl).bind fun _ hframe => .pure hframe
  | .setUpvalue index value, h, frame, rfl => by
    rw [Step.sites] at h
    rw [exec]
    exact (does_eval hcaller value h).andThen fun v => .andThen (.ofExcept _) fun cell =>
      .setHeap (fun _ => rfl) rfl
  | .setGlobal name value, h, frame, rfl => by
    rw [Step.sites] at h
    rw [exec]
    exact (does_eval hcaller value h).andThen fun v =>
      .andThen (.modify fun m _ => .modifyEngine frame.engine fun _ => rfl) fun _ => .pure rfl
  | .setField f target value, h, frame, rfl => by
    rw [Step.sites] at h
    rw [exec]
    exact .both h (does_eval hcaller target) (does_eval hcaller value) fun t v =>
      .storeHeap (fun _ _ hstore => exists_of_storeField hstore) rfl
  | .setIndex target key value, h, frame, rfl => by
    rw [Step.sites, List.append_subset] at h
    rw [exec]
    exact .both h.1 (does_eval hcaller target) (does_eval hcaller key) fun t k =>
      (does_eval hcaller value h.2).andThen fun v =>
        .storeHeap (fun _ _ hstore => exists_of_storeIndex hstore) rfl
  | .discard value, h, frame, rfl => by
    rw [Step.sites] at h
    rw [exec]
    exact (does_eval hcaller value h).andThen fun _ => .pure rfl
  | .call call, h, frame, rfl => by
    rw [Step.sites] at h
    rw [exec]
    exact (does_evalCall hcaller call h).andThen fun _ => .pure rfl
  | .branch cond thenBlock elseBlock, h, frame, rfl => by
    rw [Step.sites, List.append_subset, List.append_subset] at h
    rw [exec]
    refine (does_eval hcaller cond h.1.1).andThen fun holds => ?_
    split
    · exact passes_execBlock hcaller rounds thenBlock h.1.2 frame rfl
    · exact passes_execBlock hcaller rounds elseBlock h.2 frame rfl
  | .whileLoop cond body, h, frame, rfl => by
    rw [Step.sites, List.append_subset] at h
    rw [exec]
    refine passes_whileLoop (fun f hf => passes_execBlock hcaller rounds body h.2 f hf) ?_ rounds
      frame rfl
    intro f hf
    rw [← hf] at hcaller ⊢
    exact does_eval hcaller cond h.1
  | .forLoop slot range body, h, frame, rfl => by
    rw [Step.sites, List.append_subset] at h
    rw [exec]
    exact (does_evalRange hcaller range h.1).andThen fun r =>
      passes_rangeLoop (fun f hf => passes_execBlock hcaller rounds body h.2 f hf) slot rounds r
        frame rfl
  | .ret values, h, frame, rfl => by
    rw [Step.sites] at h
    rw [exec]
    exact (does_evalAll hcaller values h).andThen fun _ => .pure rfl
  | .retCall call, h, frame, rfl => by
    rw [Step.sites] at h
    rw [exec]
    exact (does_evalCall hcaller call h).andThen fun _ => .pure rfl
  | .breakLoop, _, frame, rfl => by
    rw [exec]
    exact .pure rfl

/-- Code of a block makes moves. -/
theorem passes_execBlock {engine : EngineId} {caller : Caller} (hcaller : caller.Moves engine ids)
    (rounds : Nat) : ∀ block : List Step, Step.allSites block ⊆ ids →
      Passes engine ids (execBlock caller rounds block)
  | [], _, frame, hframe => by
    rw [execBlock]
    exact .pure hframe
  | s :: rest, h, frame, hframe => by
    rw [Step.allSites, List.append_subset] at h
    rw [execBlock]
    refine (passes_exec hcaller rounds s h.1 frame hframe).bind fun out hout => ?_
    obtain ⟨flow, frame'⟩ := out
    cases flow with
    | normal => exact passes_execBlock hcaller rounds rest h.2 frame' hout
    | leave => exact .pure hout
    | ret values => exact .pure hout

end

end Statements

end AdaptiveScript
