import AdaptiveScript.Compilation
import AdaptiveScript.Proofs.Run.Guarded

/-!
# Emitted code captures only cells

Whatever the state of the emitter is, the code that it gives is guarded: the code of an expression
(`Emit.guarded_expr`) and that of a block (`Emit.guarded_block`) run safely in frames that keep
those locals in cells which the prototype marks, provided that the marks cover what the source
captures.  Types play no part in this, although they decide what the code looks like: which kernel
stands for an operator does not matter for what its operands do.
-/

namespace AdaptiveScript

/-! ## Expressions -/

namespace Emit

variable (scope : Scope)

theorem delivers_call (callee : Emitted) (args : List Emitted) (truncate : Bool) :
    Delivers (call callee args truncate) fun code =>
      ∃ id, code = .mk id callee.boxed (args.map Emitted.boxed) :=
  .andThen fun id => .pure ⟨id, rfl⟩

/-- The entry of a constant key, whether it has a slot or not. -/
theorem guarded_namedInit (l : Layout) (name : String) {kept : List Bool} {v : Emitted}
    (hv : v.IsGuarded kept) {is : List Init}
    (his : ∀ next t, Guarded kept fun caller frame => evalInits caller frame is next t)
    (next : Int64) (t : Table) :
    Guarded kept fun caller frame => evalInits caller frame (namedInit l name v :: is) next t := by
  intro caller frame hcaller hframe
  unfold namedInit
  beta_reduce
  split
  · rw [evalInits, Emitted.eval_boxed]
    exact (hv.safe hcaller hframe).andThen fun _ =>
      .andThen (.ofExcept fun _ => isCodeFault_storeSlot) fun _ => his _ _ hcaller hframe
  · rw [evalInits, Emitted.eval_boxed]
    exact (hv.safe hcaller hframe).andThen fun _ => his _ _ hcaller hframe

theorem guarded_literal (l : Literal) {kept : List Bool} :
    Delivers (literal l) (Emitted.IsGuarded kept) := by
  have hconstant {type : Ty} {r : Rep} {c : Code r} (hrep : type.rep = r)
      (heval : ∀ caller frame, ∃ a, eval caller frame c = pure a) :
      Emitted.IsGuarded kept ⟨type, r, c⟩ := by
    refine ⟨hrep.symm, fun caller frame _ _ => ?_⟩
    obtain ⟨a, ha⟩ := heval caller frame
    unfold Emitted.run
    dsimp only
    rw [ha]
    exact .andThen (.pure trivial) fun _ => .pure trivial
  cases l with
  | str s => exact .andThen fun index => .pure (hconstant rfl fun _ frame => ⟨_, by rw [eval]⟩)
  | _ => exact .pure (hconstant rfl fun _ _ => ⟨_, by rw [eval]⟩)

mutual

/-- The code of an expression is guarded, if the marks cover what it captures. -/
theorem guarded_expr : ∀ e : Expr, scope.proto.Covers e.captures →
    Delivers (expr scope e) (Emitted.IsGuarded scope.proto.marks)
  | .literal l, _ => by
    rw [expr]
    exact .andThen fun _ => guarded_literal l
  | .slot index, _ => by
    rw [expr]
    refine .andThen fun _ => .andThen fun _ => .pure (.narrow _ fun caller frame _ _ => ?_)
    beta_reduce
    rw [eval]
    exact .readLocal frame index
  | .upvalue index, _ => by
    rw [expr]
    refine .andThen fun _ => .andThen fun _ => .pure (.narrow _ fun caller frame _ _ => ?_)
    beta_reduce
    rw [eval]
    exact .andThen (.ofExcept fun _ => isCodeFault_upvalue) fun _ => .heap fun _ => .pure trivial
  | .global name, _ => by
    rw [expr]
    refine .andThen fun _ => .pure (.ofValue rfl fun caller frame _ _ => ?_)
    beta_reduce
    rw [eval]
    exact .get fun _ _ => .pure trivial
  | .binary op left right, h => by
    rw [Expr.captures, Prototype.covers_append] at h
    rw [expr]
    exact .andThen fun _ => (guarded_expr left h.1).bind fun l hl =>
      (guarded_expr right h.2).bind fun r hr => .pure (hl.binary op hr)
  | .logical op left right, h => by
    rw [Expr.captures, Prototype.covers_append] at h
    rw [expr]
    exact .andThen fun _ => (guarded_expr left h.1).bind fun l hl =>
      (guarded_expr right h.2).bind fun r hr => .pure (hl.logical op hr)
  | .unary op operand, h => by
    rw [Expr.captures] at h
    rw [expr]
    exact .andThen fun _ => (guarded_expr operand h).bind fun c hc => .pure (hc.unary op)
  | .index target key, h => by
    rw [Expr.captures, Prototype.covers_append] at h
    rw [expr]
    refine .andThen fun _ => (guarded_expr target h.1).bind fun t ht => .andThen fun result => ?_
    cases result with
    | some f =>
      refine .pure (.ofValue rfl fun caller frame hcaller hframe => ?_)
      beta_reduce
      rw [eval, Emitted.eval_boxed]
      exact (ht.safe hcaller hframe).andThen fun _ => .heap fun _ =>
        .ofExcept fun _ => isCodeFault_loadField
    | none =>
      refine (guarded_expr key h.2).bind fun k hk =>
        .pure (.ofValue rfl fun caller frame hcaller hframe => ?_)
      beta_reduce
      rw [eval, Emitted.eval_boxed, Emitted.eval_boxed]
      exact (ht.safe hcaller hframe).andThen fun _ => (hk.safe hcaller hframe).andThen fun _ =>
        .heap fun _ => .ofExcept fun _ => isCodeFault_indexValue
  | .call callee args, h => by
    rw [Expr.captures, Prototype.covers_append] at h
    rw [expr]
    refine .andThen fun _ => (guarded_expr callee h.1).bind fun c hc =>
      (guarded_exprs args h.2).bind fun cs hcs => (delivers_call c cs true).bind fun code hcode =>
        .andThen fun type => .pure (.narrow type fun caller frame hcaller hframe => ?_)
    obtain ⟨id, rfl⟩ := hcode
    beta_reduce
    rw [eval]
    exact (guarded_evalCall hc hcs id hcaller hframe).andThen fun _ => .pure trivial
  | .function ref captures, h => by
    rw [Expr.captures] at h
    rw [expr]
    refine .andThen fun _ => ?_
    split
    · exact .throw
    · refine .andThen fun _ => .pure (.ofValue rfl (guarded_function fun slot hslot => ?_))
      exact h slot (Expr.mem_slots.mpr hslot)
  | .table shape entries, h => by
    rw [Expr.captures] at h
    rw [expr]
    have htype : Delivers (learn (Learn.tableType shape)) fun type => type.rep = .value := by
      rintro s type s' ⟨⟩
      rfl
    refine .andThen fun _ => .andThen fun l => (guarded_inits l entries h).bind fun is his =>
      htype.bind fun type hrep => .pure (.ofValue hrep fun caller frame hcaller hframe => ?_)
    beta_reduce
    rw [eval]
    exact (his 1 _ hcaller hframe).andThen fun t => .newTable t

theorem guarded_exprs : ∀ es : List Expr, scope.proto.Covers (Expr.listCaptures es) →
    Delivers (exprs scope es) fun cs => ∀ c ∈ cs, c.IsGuarded scope.proto.marks
  | [], _ => by
    rw [exprs]
    exact .pure (by simp)
  | e :: es, h => by
    rw [Expr.listCaptures, Prototype.covers_append] at h
    rw [exprs]
    exact (guarded_expr e h.1).bind fun c hc => (guarded_exprs es h.2).bind fun cs hcs =>
      .pure (List.forall_mem_cons.mpr ⟨hc, hcs⟩)

theorem guarded_inits (l : Layout) : ∀ entries : List Entry,
    scope.proto.Covers (Expr.entryCaptures entries) →
    Delivers (inits scope l entries) fun is => ∀ next t,
      Guarded scope.proto.marks fun caller frame => evalInits caller frame is next t
  | [], _ => by
    rw [inits]
    refine .pure fun next t caller frame _ _ => ?_
    beta_reduce
    rw [evalInits]
    exact .pure trivial
  | .named name value :: rest, h => by
    rw [Expr.entryCaptures, Prototype.covers_append] at h
    rw [inits]
    exact (guarded_expr value h.1).bind fun v hv => (guarded_inits l rest h.2).bind fun is his =>
      .pure (guarded_namedInit l name hv his)
  | .keyed key value :: rest, h => by
    rw [Expr.entryCaptures, Prototype.covers_append, Prototype.covers_append] at h
    rw [inits]
    split
    · exact (guarded_expr value h.1.2).bind fun v hv => (guarded_inits l rest h.2).bind
        fun is his => .pure (guarded_namedInit l _ hv his)
    · refine (guarded_expr key h.1.1).bind fun k hk => (guarded_expr value h.1.2).bind fun v hv =>
        (guarded_inits l rest h.2).bind fun is his =>
          .pure fun next t caller frame hcaller hframe => ?_
      beta_reduce
      rw [evalInits, Emitted.eval_boxed, Emitted.eval_boxed]
      exact (hk.safe hcaller hframe).andThen fun _ => (hv.safe hcaller hframe).andThen fun _ =>
        .andThen (.ofExcept fun _ => isCodeFault_key) fun _ => his _ _ hcaller hframe
  | .positional value :: rest, h => by
    rw [Expr.entryCaptures, Prototype.covers_append] at h
    rw [inits]
    refine (guarded_expr value h.1).bind fun v hv => (guarded_inits l rest h.2).bind fun is his =>
      .pure fun next t caller frame hcaller hframe => ?_
    beta_reduce
    rw [evalInits, Emitted.eval_boxed]
    exact (hv.safe hcaller hframe).andThen fun _ => his _ _ hcaller hframe

end

/-! ## Statements -/

theorem guarded_step (step : Option Expr) (h : scope.proto.Covers (Expr.optionCaptures step)) :
    Delivers (Emit.step scope step) (Emitted.IsGuarded scope.proto.marks) := by
  cases step with
  | some e => exact guarded_expr scope e h
  | none => exact guarded_literal (.int 1)

/-- The call of a statement: callee and arguments are emitted, then the call itself. -/
theorem guarded_callParts {callee : Expr} {args : List Expr} (truncate : Bool)
    (h : scope.proto.Covers (callee.captures ++ Expr.listCaptures args))
    {f : Emitted → CallCode → Emit Step} {P : Step → Prop}
    (hf : ∀ c code, (Guarded scope.proto.marks fun caller frame => evalCall caller frame code) →
      Delivers (f c code) P) : Delivers (do
      let c ← expr scope callee
      let as ← exprs scope args
      let code ← call c as truncate
      f c code) P := by
  rw [Prototype.covers_append] at h
  refine (guarded_expr scope callee h.1).bind fun c hc => (guarded_exprs scope args h.2).bind
    fun cs hcs => (delivers_call c cs truncate).bind fun code hcode => hf c code ?_
  obtain ⟨id, rfl⟩ := hcode
  exact guarded_evalCall hc hcs id

theorem guarded_ret (values : List Expr) (h : scope.proto.Covers (Expr.listCaptures values)) :
    Delivers (ret scope values) (Step.IsGuarded scope.proto.marks) := by
  unfold ret
  split
  · next callee args =>
    rw [Expr.listCaptures, Expr.listCaptures, List.append_nil, Expr.captures] at h
    exact guarded_callParts scope false h fun c code hcode => .andThen fun _ =>
      .pure (.retCall hcode)
  · exact (guarded_exprs scope values h).bind fun vs hvs => .pure (.ret hvs)

theorem guarded_discard (e : Expr) (h : scope.proto.Covers e.captures) :
    Delivers (discard scope e) (Step.IsGuarded scope.proto.marks) := by
  unfold discard
  split
  · rw [Expr.captures] at h
    exact guarded_callParts scope true h fun c code hcode => .pure (.call hcode)
  · exact (guarded_expr scope e h).bind fun c hc => .pure (.discard hc)

mutual

/-- The code of a statement is guarded, if the marks cover what it captures. -/
theorem guarded_stmt (inLoop : Bool) : ∀ s : Stmt, scope.proto.Covers s.captures →
    Delivers (stmt scope inLoop s) (Step.IsGuarded scope.proto.marks)
  | .declare slot (some e), h => by
    rw [stmt]
    refine .andThen fun _ => .andThen fun _ => ?_
    exact (guarded_expr scope e h).bind fun c hc => .pure (.declare slot hc)
  | .declare slot none, _ => by
    rw [stmt]
    exact .andThen fun _ => .andThen fun _ => .pure (.declareNil slot)
  | .assign slot value, h => by
    rw [stmt]
    refine .andThen fun _ => .andThen fun _ => ?_
    exact (guarded_expr scope value h).bind fun c hc => .pure (.assign slot hc)
  | .setUpvalue index value, h => by
    rw [stmt]
    refine .andThen fun _ => .andThen fun _ => ?_
    exact (guarded_expr scope value h).bind fun c hc => .pure (.setUpvalue index hc)
  | .setGlobal name value, h => by
    rw [stmt]
    exact .andThen fun _ => (guarded_expr scope value h).bind fun c hc => .pure (.setGlobal name hc)
  | .setIndex target key value, h => by
    rw [Stmt.captures, Prototype.covers_append, Prototype.covers_append] at h
    rw [stmt]
    refine .andThen fun _ => (guarded_expr scope target h.1.1).bind fun t ht =>
      .andThen fun result => ?_
    cases result with
    | some f =>
      exact (guarded_expr scope value h.2).bind fun v hv => .pure (.setField f ht hv)
    | none =>
      refine (guarded_expr scope key h.1.2).bind fun k hk => ?_
      exact (guarded_expr scope value h.2).bind fun v hv => .pure (.setIndex ht hk hv)
  | .expr e, h => by
    rw [stmt]
    exact .andThen fun _ => guarded_discard scope e h
  | .branch cond thenBlock elseBlock, h => by
    rw [Stmt.captures, Prototype.covers_append, Prototype.covers_append] at h
    rw [stmt]
    refine .andThen fun _ => (guarded_expr scope cond h.1.1).bind fun c hc => ?_
    refine (guarded_block inLoop thenBlock h.1.2).bind fun t ht => ?_
    exact (guarded_block inLoop elseBlock h.2).bind fun e he => .pure (.branch hc ht he)
  | .whileLoop cond body, h => by
    rw [Stmt.captures, Prototype.covers_append] at h
    rw [stmt]
    refine .andThen fun _ => (guarded_expr scope cond h.1).bind fun c hc => ?_
    exact (guarded_block true body h.2).bind fun b hb => .pure (.whileLoop hc hb)
  | .forLoop slot start limit step body, h => by
    rw [Stmt.captures, Prototype.covers_append, Prototype.covers_append,
      Prototype.covers_append] at h
    rw [stmt]
    refine .andThen fun _ => .andThen fun _ => ?_
    refine (guarded_expr scope start h.1.1.1).bind fun s hs => ?_
    refine (guarded_expr scope limit h.1.1.2).bind fun l hl => ?_
    refine (guarded_step scope step h.1.2).bind fun d hd => ?_
    exact (guarded_block true body h.2).bind fun b hb => .pure (.forLoop slot hs hl hd hb)
  | .ret values, h => by
    rw [stmt]
    exact .andThen fun _ => guarded_ret scope values h
  | .breakLoop, _ => by
    rw [stmt]
    refine .andThen fun _ => ?_
    split
    · exact .pure .breakLoop
    · exact .throw

/-- The code of a block is guarded, if the marks cover what it captures. -/
theorem guarded_block (inLoop : Bool) : ∀ block : List Stmt,
    scope.proto.Covers (Stmt.blockCaptures block) →
    Delivers (Emit.block scope inLoop block) (Step.BlockGuarded scope.proto.marks)
  | [], _ => by
    rw [block]
    exact .pure .nil
  | s :: rest, h => by
    rw [Stmt.blockCaptures, Prototype.covers_append] at h
    rw [block]
    refine (guarded_stmt inLoop s h.1).bind fun c hc => ?_
    exact (guarded_block inLoop rest h.2).bind fun cs hcs => .pure (.cons hc hcs)

end

end Emit
end AdaptiveScript
