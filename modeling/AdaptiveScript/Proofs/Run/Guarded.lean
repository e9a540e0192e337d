import AdaptiveScript.Proofs.Program.Captures
import AdaptiveScript.Proofs.Run.Variables

/-!
# Runs that capture only cells

A function literal can close over a local only if the local is kept in a cell; otherwise its
evaluation ends in an error of its own (`RuntimeError.isUnboxed`).  A computation is safe
(`Safe`) if it does not end in this error, and the code of an expression or statement is guarded
(`Guarded`) if it runs safely wherever calls are safe and the locals of the frame are kept in a
given way.  Guarded code is put together from guarded parts.

What calls rely on is that all code in a machine was compiled from prototypes with exact marks
(`Machine.Marked`).  Running code does not change this, so it is part of what safety says.
-/

namespace AdaptiveScript

/-- The error of a function literal that captures a local outside cells. -/
def RuntimeError.isUnboxed : RuntimeError → Bool
  | .unboxedCapture _ => true
  | _ => false

theorem isUnboxed_of_isCodeFault {e : RuntimeError} (h : e.isCodeFault = false) :
    e.isUnboxed = false := by
  cases e with
  | unboxedCapture => cases h
  | _ => rfl

/-! ## Marks -/

namespace Prototype

variable {proto : Prototype}

/-- For each local whether it is marked as captured. -/
def marks (proto : Prototype) : List Bool :=
  proto.locals.toList.map LocalDecl.captured

/-- Some slots are marked as captured. -/
def Covers (proto : Prototype) (slots : List Nat) : Prop :=
  ∀ slot ∈ slots, proto.marks[slot]? = some true

theorem getElem?_marks (proto : Prototype) (slot : Nat) :
    proto.marks[slot]? = proto.locals[slot]?.map LocalDecl.captured := by
  rw [marks, List.getElem?_map, Array.getElem?_toList]

theorem covers_append {slots others : List Nat} :
    proto.Covers (slots ++ others) ↔ proto.Covers slots ∧ proto.Covers others :=
  List.forall_mem_append

/-- Exact marks cover what the body captures. -/
theorem IsMarked.covers (h : proto.IsMarked)
    (hrange : ∀ slot, Stmt.CapturesSlot proto.body slot → slot < proto.localCount) :
    proto.Covers (Stmt.blockCaptures proto.body) := by
  intro slot hslot
  have hcaptures := Stmt.mem_blockCaptures_iff.mp hslot
  have hdecl := Array.getElem?_eq_getElem (hrange slot hcaptures)
  rw [getElem?_marks, hdecl, Option.map_some, (h hdecl).mpr hcaptures]

end Prototype

namespace Specialization

/-- A routine was compiled from a prototype, for some signature in some machine. -/
def CompiledFrom (spec : Specialization) (proto : Prototype) : Prop :=
  ∃ m engine signature m', (Compile.compile engine proto signature).run.run m = (.ok spec, m')

/-- A routine was compiled from a prototype with exact marks. -/
def IsMarked (spec : Specialization) : Prop :=
  ∃ proto : Prototype, proto.IsMarked ∧ spec.CompiledFrom proto

end Specialization

/-- All prototypes of a machine have exact marks, and so have those that its code comes from. -/
structure Machine.Marked (m : Machine) : Prop where
  prototypes : ∀ {index : Nat} {proto : Prototype}, m.program.prototypes[index]? = some proto →
    proto.IsMarked
  specs : ∀ {index : Nat} {cache : Cache}, m.caches[index]? = some cache →
    ∀ spec ∈ cache.entries, spec.IsMarked
  links : ∀ {id : SiteId} {link : Linking.Link}, (m.sites.get id).link = some link →
    ∀ spec, link.target.specialization? = some spec → spec.IsMarked

/-- Nothing else of a machine matters for this. -/
theorem Machine.Marked.congr {m m' : Machine} (h : m.Marked) (hprogram : m'.program = m.program)
    (hcaches : m'.caches = m.caches) (hsites : m'.sites = m.sites) : m'.Marked := by
  constructor
  · intro index proto hproto
    rw [hprogram] at hproto
    exact h.prototypes hproto
  · intro index cache hcache
    rw [hcaches] at hcache
    exact h.specs hcache
  · intro id link hlink
    rw [hsites] at hlink
    exact h.links hlink

/-! ## Safe computations -/

/-- From a machine, a computation leads to one whose code has exact marks; its result has a
property, and its error is not that a captured local is not boxed. -/
structure SafeFrom {α : Type} (m : Machine) (x : Run α) (Q : α → Prop) : Prop where
  marked : (x.run.run m).2.Marked
  post : ∀ {a : α}, (x.run.run m).1 = .ok a → Q a
  error : ∀ {e : RuntimeError}, (x.run.run m).1 = .error (.error e) → e.isUnboxed = false

/-- The same from every machine whose code has exact marks. -/
def Safe {α : Type} (x : Run α) (Q : α → Prop) : Prop :=
  ∀ m : Machine, m.Marked → SafeFrom m x Q

namespace Safe

variable {α β : Type} {Q : α → Prop} {Q' : β → Prop}

theorem pure {a : α} (h : Q a) : Safe (pure a) Q := by
  intro m hm
  refine ⟨hm, ?_, ?_⟩
  · rintro _ ⟨⟩
    exact h
  · rintro _ ⟨⟩

theorem raise {e : RuntimeError} (h : e.isUnboxed = false) : Safe (Run.raise e : Run α) Q := by
  intro m hm
  refine ⟨hm, ?_, ?_⟩
  · rintro _ ⟨⟩
  · rintro _ ⟨⟩
    exact h

theorem exhausted : Safe (throw .exhausted : Run α) Q := by
  intro m hm
  refine ⟨hm, ?_, ?_⟩
  · rintro _ ⟨⟩
  · rintro _ ⟨⟩

theorem ofExcept {x : Except RuntimeError α} (h : ∀ e, x = .error e → e.isCodeFault = false) :
    Safe (Run.ofExcept x) fun _ => True := by
  cases x with
  | error e => exact raise (isUnboxed_of_isCodeFault (h e rfl))
  | ok a => exact pure trivial

theorem mono {P : α → Prop} {x : Run α} (hx : Safe x P) (h : ∀ a, P a → Q a) : Safe x Q :=
  fun m hm => ⟨(hx m hm).marked, fun heq => h _ ((hx m hm).post heq), (hx m hm).error⟩

/-- What is known of all results is known of this one. -/
theorem delivering {x : Run α} (hx : Safe x fun _ => True) (h : Delivers x Q) : Safe x Q := by
  intro m hm
  refine ⟨(hx m hm).marked, ?_, (hx m hm).error⟩
  intro a heq
  exact h (Prod.ext heq rfl)

theorem bind {x : Run α} {f : α → Run β} (hx : Safe x Q) (hf : ∀ a, Q a → Safe (f a) Q') :
    Safe (x >>= f) Q' := by
  intro m hm
  obtain ⟨hmarked, hpost, herror⟩ := hx m hm
  have hrun := run_bind x f m
  cases h : x.run.run m with
  | mk result m' =>
    rw [h] at hmarked hpost herror hrun
    cases result with
    | ok a =>
      obtain ⟨hmarked', hpost', herror'⟩ := hf a (hpost rfl) m' hmarked
      exact ⟨by rwa [hrun], by rwa [hrun], by rwa [hrun]⟩
    | error stop =>
      refine ⟨by rwa [hrun], ?_, ?_⟩
      · rw [hrun]
        rintro _ ⟨⟩
      · rw [hrun]
        rintro _ ⟨⟩
        exact herror rfl

/-- A computation whose result does not matter comes first. -/
theorem andThen {x : Run α} {f : α → Run β} (hx : Safe x fun _ => True)
    (hf : ∀ a, Safe (f a) Q') : Safe (x >>= f) Q' :=
  hx.bind fun a _ => hf a

/-- A look at the machine comes first. -/
theorem get {f : Machine → Run β} (h : ∀ m : Machine, m.Marked → Safe (f m) Q') :
    Safe (get >>= f) Q' := by
  intro m hm
  obtain ⟨hmarked, hpost, herror⟩ := h m hm m hm
  exact ⟨hmarked, hpost, herror⟩

theorem heap {f : Heap → Run β} (h : ∀ heap, Safe (f heap) Q') : Safe (Run.heap >>= f) Q' :=
  get fun m _ => h m.heap

/-- How a computation ends is looked at. -/
theorem outcome {x : Run α} (hx : Safe x Q) : Safe (Run.outcome x) fun result =>
    ∀ e, result = .error e → e.isUnboxed = false := by
  intro m hm
  obtain ⟨hmarked, -, herror⟩ := hx m hm
  refine ⟨hmarked, ?_, ?_⟩ <;> rw [Run.run_outcome]
  · intro result heq e hresult
    cases hx : (x.run.run m).1 with
    | ok a =>
      rw [hx] at heq
      cases heq
      cases hresult
    | error stop =>
      rw [hx] at heq
      cases stop with
      | exhausted => cases heq
      | error e' =>
        cases heq
        cases hresult
        exact herror hx
  · intro e heq
    cases hx : (x.run.run m).1 with
    | ok a =>
      rw [hx] at heq
      cases heq
    | error stop =>
      rw [hx] at heq
      cases stop <;> cases heq

/-- A change that touches neither the program nor code nor sites. -/
theorem modify {f : Machine → Machine} (hprogram : ∀ m, (f m).program = m.program)
    (hcaches : ∀ m, (f m).caches = m.caches) (hsites : ∀ m, (f m).sites = m.sites) :
    Safe (modify f : Run PUnit) fun _ => True := by
  intro m hm
  refine ⟨hm.congr (hprogram m) (hcaches m) (hsites m), fun _ => trivial, ?_⟩
  rintro _ ⟨⟩

theorem setHeap (heap : Heap) : Safe (Run.setHeap heap) fun _ => True :=
  modify (fun _ => rfl) (fun _ => rfl) fun _ => rfl

theorem readLocal (frame : Frame) (slot : Nat) : Safe (Run.readLocal frame slot) fun _ => True := by
  intro m hm
  refine ⟨hm.congr rfl rfl rfl, fun _ => trivial, ?_⟩
  rintro _ ⟨⟩

theorem newTable (t : Table) : Safe (Run.newTable t) fun _ => True :=
  heap fun _ => .andThen (setHeap _) fun _ => pure trivial

theorem shortCircuit (op : LogicalOp) (isTrue : α → Bool) (left : α) {right : Run α}
    (h : Safe right fun _ => True) :
    Safe (shortCircuit op isTrue left right) fun _ => True := by
  cases op <;> unfold AdaptiveScript.shortCircuit <;> dsimp only <;> split
  · exact h
  · exact pure trivial
  · exact pure trivial
  · exact h

end Safe

/-! ## Errors of code -/

theorem isUnboxed_narrowed {type : Ty} {v : Value} {e : RuntimeError}
    (h : type.narrowed v = .error e) : e.isUnboxed = false := by
  have hunbox := error_of_map_eq_error h
  cases hrep : type.rep <;> rw [hrep] at hunbox <;> cases v <;> cases hunbox <;> rfl

theorem isCodeFault_storeSlot {t : Table} {slot : Nat} {v : Value} {e : RuntimeError}
    (h : t.storeSlot slot v = .error e) : e.isCodeFault = false := by
  unfold Table.storeSlot at h
  split at h <;> cases h
  rfl

theorem isCodeFault_loadField {heap : Heap} {f : Field} {target : Value} {e : RuntimeError}
    (h : loadField heap f target = .error e) : e.isCodeFault = false := by
  unfold loadField at h
  split at h
  · dsimp only at h
    split at h <;> cases h
  · cases h
    rfl

theorem isCodeFault_storeField {heap : Heap} {f : Field} {target v : Value} {e : RuntimeError}
    (h : storeField heap f target v = .error e) : e.isCodeFault = false := by
  unfold storeField at h
  split at h
  · dsimp only at h
    split at h
    · exact isCodeFault_storeSlot (error_of_map_eq_error h)
    · cases h
  · cases h
    rfl

/-! ## Guarded code -/

/-- Calls do not end in the error that a captured local is not boxed. -/
def Caller.IsSafe (caller : Caller) : Prop :=
  ∀ engine site callee args, Safe (caller engine site callee args) fun _ => True

/-- Something runs safely in frames that keep their locals in a given way, if calls are safe. -/
def Guarded {α : Type} (kept : List Bool) (x : Caller → Frame → Run α) : Prop :=
  ∀ ⦃caller : Caller⦄ ⦃frame : Frame⦄, caller.IsSafe → frame.boxes = kept →
    Safe (x caller frame) fun _ => True

/-- The code of an expression runs safely, and its representation is the one of its type. -/
structure Emitted.IsGuarded (kept : List Bool) (c : Emitted) : Prop where
  fits : c.Fits
  safe : Guarded kept fun caller frame => c.run caller frame

namespace Emitted.IsGuarded

variable {kept : List Bool}

theorem ofValue {type : Ty} {c : Code .value} (hrep : type.rep = .value)
    (h : Guarded kept fun caller frame => eval caller frame c) :
    IsGuarded kept ⟨type, .value, c⟩ := by
  refine ⟨hrep.symm, fun caller frame hcaller hframe => ?_⟩
  beta_reduce
  rw [run_value]
  exact h hcaller hframe

theorem narrow (type : Ty) {c : Code .value}
    (h : Guarded kept fun caller frame => eval caller frame c) :
    IsGuarded kept (.narrow type c) := by
  refine ⟨fits_narrow _ _, fun caller frame hcaller hframe => ?_⟩
  beta_reduce
  rw [run_narrow]
  refine (h hcaller hframe).andThen fun v => ?_
  cases hnarrowed : type.narrowed v with
  | error e => exact .raise (isUnboxed_narrowed hnarrowed)
  | ok u => exact .pure trivial

theorem binary (op : BinOp) {l r : Emitted} (hl : l.IsGuarded kept) (hr : r.IsGuarded kept) :
    IsGuarded kept (.binary op l r) := by
  refine ⟨fits_binary op l r, fun caller frame hcaller hframe => ?_⟩
  beta_reduce
  rw [run_binary op hl.fits hr.fits]
  exact (hl.safe hcaller hframe).andThen fun a => (hr.safe hcaller hframe).andThen fun b =>
    .ofExcept fun _ => isCodeFault_binary

theorem logical (op : LogicalOp) {l r : Emitted} (hl : l.IsGuarded kept) (hr : r.IsGuarded kept) :
    IsGuarded kept (.logical op l r) := by
  refine ⟨fits_logical op hl.fits hr.fits, fun caller frame hcaller hframe => ?_⟩
  beta_reduce
  rw [run_logical op hl.fits hr.fits]
  exact (hl.safe hcaller hframe).andThen fun a =>
    .shortCircuit op _ a (hr.safe hcaller hframe)

theorem unary (op : UnOp) {c : Emitted} (h : c.IsGuarded kept) : IsGuarded kept (.unary op c) := by
  refine ⟨fits_unary op h.fits, fun caller frame hcaller hframe => ?_⟩
  beta_reduce
  rw [run_unary op h.fits]
  exact (h.safe hcaller hframe).andThen fun a => .heap fun _ =>
    .ofExcept fun _ => isCodeFault_unary

/-- Whether a condition holds is found as safely as its value. -/
theorem toTruth {c : Emitted} (h : c.IsGuarded kept) :
    Guarded kept fun caller frame => eval caller frame c.toTruth := by
  intro caller frame hcaller hframe
  beta_reduce
  rw [Emitted.eval_toTruth]
  exact (h.safe hcaller hframe).andThen fun _ => .pure trivial

end Emitted.IsGuarded

section Code

variable {kept : List Bool}

/-- Code of a call runs safely if the code of its callee and arguments does. -/
theorem guarded_evalAll {cs : List Emitted} (h : ∀ c ∈ cs, c.IsGuarded kept) :
    Guarded kept fun caller frame => evalAll caller frame (cs.map Emitted.boxed) := by
  intro caller frame hcaller hframe
  beta_reduce
  induction cs with
  | nil =>
    rw [List.map_nil, evalAll]
    exact .pure trivial
  | cons c cs ih =>
    rw [List.map_cons, evalAll, Emitted.eval_boxed]
    obtain ⟨hc, hcs⟩ := List.forall_mem_cons.mp h
    exact (hc.safe hcaller hframe).andThen fun _ => (ih hcs).andThen fun _ => .pure trivial

theorem guarded_evalCall {c : Emitted} {cs : List Emitted} (hc : c.IsGuarded kept)
    (hcs : ∀ c ∈ cs, c.IsGuarded kept) (id : SiteId) : Guarded kept fun caller frame =>
      evalCall caller frame (.mk id c.boxed (cs.map Emitted.boxed)) := by
  intro caller frame hcaller hframe
  beta_reduce
  rw [evalCall, Emitted.eval_boxed]
  exact (hc.safe hcaller hframe).andThen fun f =>
    (guarded_evalAll hcs hcaller hframe).andThen fun vs => hcaller _ _ f vs

/-- A literal can be evaluated wherever the locals that it captures are kept in cells. -/
theorem guarded_function {ref : PrototypeRef} {captures : List Capture}
    (h : ∀ slot, Capture.slot slot ∈ captures → kept[slot]? = some true) :
    Guarded kept fun caller frame => eval caller frame (.function ref captures) := by
  intro caller frame hcaller hframe
  subst hframe
  beta_reduce
  rw [eval]
  have hcells : Safe (Run.ofExcept (captures.mapM frame.capture)) fun _ => True := by
    refine .ofExcept fun e he => ?_
    obtain ⟨c, hmem, hc⟩ := exists_of_mapM_eq_error he
    cases c with
    | slot index =>
      obtain ⟨cell, hcell⟩ := Frame.exists_capture_of_boxes (h index hmem)
      rw [hcell] at hc
      cases hc
    | upvalue index => exact isCodeFault_upvalue hc
  refine hcells.andThen fun cells => .get fun m hm => fun _ _ => ?_
  refine ⟨hm.congr rfl rfl rfl, fun _ => trivial, ?_⟩
  rintro _ ⟨⟩

end Code

/-! ## Loops -/

/-- A body runs safely in frames that keep their locals in a given way, and leaves such frames. -/
def SafeBody (kept : List Bool) (body : Frame → Run (Flow × Frame)) : Prop :=
  ∀ frame, frame.boxes = kept → Safe (body frame) fun out => out.2.boxes = kept

section Loops

variable {kept : List Bool} {body : Frame → Run (Flow × Frame)} (hbody : SafeBody kept body)

theorem safe_afterRound {again : Frame → Run (Flow × Frame)} (hagain : SafeBody kept again)
    {out : Flow × Frame} (h : out.2.boxes = kept) :
    Safe (afterRound again out) fun out' => out'.2.boxes = kept := by
  obtain ⟨flow, frame⟩ := out
  cases flow with
  | normal => exact hagain frame h
  | leave => exact .pure h
  | ret values => exact .pure h

theorem safe_declareLocal (slot : Nat) (v : Value) {frame : Frame} (h : frame.boxes = kept) :
    Safe (declareLocal slot v frame) fun frame' => frame'.boxes = kept :=
  .heap fun heap => .andThen (.setHeap _) fun _ => .pure ((frame.boxes_declare heap slot v).trans h)

theorem safe_writeLocal (slot : Nat) (v : Value) (frame : Frame) :
    Safe (writeLocal slot v frame) fun _ => True :=
  .heap fun _ => .andThen (.setHeap _) fun _ => .pure trivial

include hbody

theorem safeBody_whileLoop {cond : Frame → Run Bool}
    (hcond : ∀ frame, frame.boxes = kept → Safe (cond frame) fun _ => True) (rounds : Nat) :
    SafeBody kept (whileLoop cond body rounds) := by
  induction rounds with
  | zero => exact fun _ _ => .exhausted
  | succ rounds ih =>
    intro frame hframe
    rw [whileLoop]
    refine (hcond frame hframe).andThen fun holds => ?_
    split
    · exact (hbody frame hframe).bind fun out hout => safe_afterRound ih hout
    · exact .pure hframe

theorem safeBody_intLoop (slot : Nat) (step : Int) (count : Nat) :
    ∀ i, SafeBody kept (intLoop slot body step count i) := by
  induction count with
  | zero => exact fun _ _ hframe => .pure hframe
  | succ count ih =>
    intro i frame hframe
    rw [intLoop]
    exact (safe_declareLocal slot _ hframe).bind fun frame' hframe' =>
      (hbody frame' hframe').bind fun out hout => safe_afterRound (ih (i + step)) hout

theorem safeBody_floatLoop (slot : Nat) (limit step : Float) (rounds : Nat) :
    ∀ x, SafeBody kept (floatLoop slot body limit step rounds x) := by
  induction rounds with
  | zero => exact fun _ _ _ => .exhausted
  | succ rounds ih =>
    intro x frame hframe
    rw [floatLoop]
    split
    · exact (safe_declareLocal slot _ hframe).bind fun frame' hframe' =>
        (hbody frame' hframe').bind fun out hout => safe_afterRound (ih (x + step)) hout
    · exact .pure hframe

theorem safeBody_rangeLoop (slot rounds : Nat) (range : Range) :
    SafeBody kept (rangeLoop slot body rounds range) := by
  intro frame hframe
  cases range with
  | int start limit step =>
    rw [rangeLoop]
    split
    · exact .raise rfl
    · refine .andThen (.ofExcept fun _ => isCodeFault_intLimit) fun bound => ?_
      cases bound with
      | none => exact .pure hframe
      | some bound => exact safeBody_intLoop hbody slot _ _ _ frame hframe
  | float start limit step =>
    rw [rangeLoop]
    split
    · exact .raise rfl
    · exact safeBody_floatLoop hbody slot limit step rounds start frame hframe

end Loops

/-! ## Guarded statements -/

/-- The code of a statement runs safely, whatever the bound on loops is. -/
def Step.IsGuarded (kept : List Bool) (s : Step) : Prop :=
  ∀ rounds, Guarded kept fun caller frame => exec caller rounds s frame

/-- The code of a block runs safely. -/
def Step.BlockGuarded (kept : List Bool) (block : List Step) : Prop :=
  ∀ rounds, Guarded kept fun caller frame => execBlock caller rounds block frame

/-- Frames keep their locals in the same way while a block runs. -/
theorem Step.BlockGuarded.safeBody {kept : List Bool} {block : List Step}
    (h : BlockGuarded kept block) {caller : Caller} (hcaller : caller.IsSafe) (rounds : Nat) :
    SafeBody kept fun frame => execBlock caller rounds block frame := by
  intro frame hframe
  refine (h rounds hcaller hframe).delivering ?_
  exact (confined_execBlock caller rounds block frame).mono fun _ halters =>
    halters.boxes.trans hframe

theorem Step.BlockGuarded.nil {kept : List Bool} : BlockGuarded kept [] := by
  intro rounds caller frame _ _
  beta_reduce
  rw [execBlock]
  exact .pure trivial

theorem Step.BlockGuarded.cons {kept : List Bool} {s : Step} {rest : List Step}
    (hs : s.IsGuarded kept) (hrest : BlockGuarded kept rest) : BlockGuarded kept (s :: rest) := by
  intro rounds caller frame hcaller hframe
  beta_reduce
  rw [execBlock]
  have hfirst : Safe (exec caller rounds s frame) fun out => out.2.boxes = kept := by
    refine (hs rounds hcaller hframe).delivering ?_
    exact (confined_exec caller rounds s frame).mono fun _ halters => halters.boxes.trans hframe
  refine hfirst.bind fun out hout => ?_
  obtain ⟨flow, frame'⟩ := out
  cases flow with
  | normal => exact hrest rounds hcaller hout
  | leave => exact .pure trivial
  | ret values => exact .pure trivial

namespace Step.IsGuarded

variable {kept : List Bool} {c t k v : Emitted}

theorem declare (slot : Nat) (hc : c.IsGuarded kept) : IsGuarded kept (.declare slot c.boxed) := by
  intro rounds caller frame hcaller hframe
  beta_reduce
  rw [exec, Emitted.eval_boxed]
  exact (hc.safe hcaller hframe).andThen fun value =>
    (safe_declareLocal slot value hframe).bind fun _ _ => .pure trivial

theorem declareNil (slot : Nat) : IsGuarded kept (.declare slot .nil) := by
  intro rounds caller frame _ hframe
  beta_reduce
  rw [exec, eval, pure_bind]
  exact (safe_declareLocal slot _ hframe).bind fun _ _ => .pure trivial

theorem assign (slot : Nat) (hc : c.IsGuarded kept) : IsGuarded kept (.assign slot c.boxed) := by
  intro rounds caller frame hcaller hframe
  beta_reduce
  rw [exec, Emitted.eval_boxed]
  exact (hc.safe hcaller hframe).andThen fun value =>
    (safe_writeLocal slot value frame).andThen fun _ => .pure trivial

theorem setUpvalue (index : Nat) (hc : c.IsGuarded kept) :
    IsGuarded kept (.setUpvalue index c.boxed) := by
  intro rounds caller frame hcaller hframe
  beta_reduce
  rw [exec, Emitted.eval_boxed]
  exact (hc.safe hcaller hframe).andThen fun _ =>
    .andThen (.ofExcept fun _ => isCodeFault_upvalue) fun _ =>
      .heap fun _ => .andThen (.setHeap _) fun _ => .pure trivial

theorem setGlobal (name : String) (hc : c.IsGuarded kept) :
    IsGuarded kept (.setGlobal name c.boxed) := by
  intro rounds caller frame hcaller hframe
  beta_reduce
  rw [exec, Emitted.eval_boxed]
  refine (hc.safe hcaller hframe).andThen fun _ => .andThen (.modify ?_ ?_ ?_) fun _ =>
    .pure trivial
  all_goals exact fun _ => rfl

theorem setField (field : Field) (ht : t.IsGuarded kept) (hv : v.IsGuarded kept) :
    IsGuarded kept (.setField field t.boxed v.boxed) := by
  intro rounds caller frame hcaller hframe
  beta_reduce
  rw [exec, Emitted.eval_boxed, Emitted.eval_boxed]
  exact (ht.safe hcaller hframe).andThen fun _ => (hv.safe hcaller hframe).andThen fun _ =>
    .heap fun _ => .andThen (.ofExcept fun _ => isCodeFault_storeField) fun _ =>
      .andThen (.setHeap _) fun _ => .pure trivial

theorem setIndex (ht : t.IsGuarded kept) (hk : k.IsGuarded kept) (hv : v.IsGuarded kept) :
    IsGuarded kept (.setIndex t.boxed k.boxed v.boxed) := by
  intro rounds caller frame hcaller hframe
  beta_reduce
  rw [exec, Emitted.eval_boxed, Emitted.eval_boxed, Emitted.eval_boxed]
  exact (ht.safe hcaller hframe).andThen fun _ => (hk.safe hcaller hframe).andThen fun _ =>
    (hv.safe hcaller hframe).andThen fun _ => .heap fun _ =>
      .andThen (.ofExcept fun _ => isCodeFault_storeIndex) fun _ =>
        .andThen (.setHeap _) fun _ => .pure trivial

theorem discard (hc : c.IsGuarded kept) : IsGuarded kept (.discard c.boxed) := by
  intro rounds caller frame hcaller hframe
  beta_reduce
  rw [exec, Emitted.eval_boxed]
  exact (hc.safe hcaller hframe).andThen fun _ => .pure trivial

theorem call {code : CallCode} (h : Guarded kept fun caller frame => evalCall caller frame code) :
    IsGuarded kept (.call code) := by
  intro rounds caller frame hcaller hframe
  beta_reduce
  rw [exec]
  exact (h hcaller hframe).andThen fun _ => .pure trivial

theorem ret {cs : List Emitted} (h : ∀ c ∈ cs, c.IsGuarded kept) :
    IsGuarded kept (.ret (cs.map Emitted.boxed)) := by
  intro rounds caller frame hcaller hframe
  beta_reduce
  rw [exec]
  exact (guarded_evalAll h hcaller hframe).andThen fun _ => .pure trivial

theorem retCall {code : CallCode}
    (h : Guarded kept fun caller frame => evalCall caller frame code) :
    IsGuarded kept (.retCall code) := by
  intro rounds caller frame hcaller hframe
  beta_reduce
  rw [exec]
  exact (h hcaller hframe).andThen fun _ => .pure trivial

theorem breakLoop : IsGuarded kept .breakLoop := by
  intro rounds caller frame _ _
  beta_reduce
  rw [exec]
  exact .pure trivial

theorem branch (hc : c.IsGuarded kept) {thenBlock elseBlock : List Step}
    (hthen : BlockGuarded kept thenBlock) (helse : BlockGuarded kept elseBlock) :
    IsGuarded kept (.branch c.toTruth thenBlock elseBlock) := by
  intro rounds caller frame hcaller hframe
  beta_reduce
  rw [exec]
  refine (hc.toTruth hcaller hframe).andThen fun holds => ?_
  split
  · exact hthen rounds hcaller hframe
  · exact helse rounds hcaller hframe

theorem whileLoop (hc : c.IsGuarded kept) {body : List Step} (hbody : BlockGuarded kept body) :
    IsGuarded kept (.whileLoop c.toTruth body) := by
  intro rounds caller frame hcaller hframe
  beta_reduce
  rw [exec]
  exact (safeBody_whileLoop (hbody.safeBody hcaller rounds)
    (fun _ hframe' => hc.toTruth hcaller hframe') rounds frame hframe).mono fun _ _ => trivial

theorem forLoop (slot : Nat) {start limit step : Emitted} (hstart : start.IsGuarded kept)
    (hlimit : limit.IsGuarded kept) (hstep : step.IsGuarded kept) {body : List Step}
    (hbody : BlockGuarded kept body) :
    IsGuarded kept (.forLoop slot (Emit.range start limit step) body) := by
  intro rounds caller frame hcaller hframe
  beta_reduce
  rw [exec, evalRange_range hstart.fits hlimit.fits hstep.fits]
  refine .andThen ?_ fun range => (safeBody_rangeLoop (hbody.safeBody hcaller rounds) slot rounds
    range frame hframe).mono fun _ _ => trivial
  exact (hstart.safe hcaller hframe).andThen fun _ => (hlimit.safe hcaller hframe).andThen fun _ =>
    (hstep.safe hcaller hframe).andThen fun _ => .ofExcept fun _ => isCodeFault_ofValues

end Step.IsGuarded
end AdaptiveScript
