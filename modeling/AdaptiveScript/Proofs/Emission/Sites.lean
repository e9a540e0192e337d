import AdaptiveScript.Compilation
import AdaptiveScript.Proofs.Appends
import AdaptiveScript.Proofs.Code.Sites
import AdaptiveScript.Proofs.Triple

/-!
# Emitted code goes through sites that exist

Emission makes call sites and does nothing else to sites (`Linking.Sites.Adds`), whether it
succeeds or not, and every site that occurs in the code it gives was made by then
(`Emit.makes_block`).  Nothing has to be known about the source for this, nor about the types
that were found for it.
-/

namespace AdaptiveScript

/-! ## Sites -/

namespace Linking

/-- A site that was never linked. -/
def Site.IsFresh (site : Site) : Prop :=
  ∃ static truncate, site = .fresh static truncate

namespace Sites

/-- Sites are made, and nothing else happens to sites. -/
def Adds (before after : Sites) : Prop :=
  Appends Site.IsFresh before.sites.toList after.sites.toList

/-- There are sites with these numbers. -/
def HasAll (sites : Sites) (ids : List SiteId) : Prop :=
  ∀ id ∈ ids, 0 < id ∧ id ≤ sites.sites.size

theorem Adds.size_le {before after : Sites} (h : before.Adds after) :
    before.sites.size ≤ after.sites.size := by
  simpa using Appends.length_le h

/-- The sites that there were are as they were. -/
theorem Adds.get_eq {before after : Sites} (h : before.Adds after) {id : SiteId}
    (hid : id ≤ before.sites.size) : after.get id = before.get id := by
  cases id with
  | zero => rfl
  | succ index =>
    have hindex := Appends.getElem? h (i := index) (by rw [Array.length_toList]; exact hid)
    simp only [Array.getElem?_toList] at hindex
    simp [get, Array.getD_eq_getD_getElem?, hindex]

/-- What all fresh sites have in common reads the same at every number. -/
theorem Adds.read_eq {β : Type} (p : Site → β)
    (hp : ∀ static truncate, p (.fresh static truncate) = p (.fresh [] false))
    {before after : Sites} (h : before.Adds after) (id : SiteId) :
    p (after.get id) = p (before.get id) := by
  cases id with
  | zero => rfl
  | succ index =>
    have hread : Appends (· = p (.fresh [] false)) (before.sites.toList.map p)
        (after.sites.toList.map p) := by
      refine Appends.map h ?_
      rintro _ ⟨static, truncate, rfl⟩
      exact hp static truncate
    have hindex := hread.getD_eq index
    rw [List.getElem?_map, List.getElem?_map, Option.getD_map, Option.getD_map,
      Array.getElem?_toList, Array.getElem?_toList] at hindex
    rwa [get, get, Array.getD_eq_getD_getElem?, Array.getD_eq_getD_getElem?]

theorem adds_add (sites : Sites) (static : List Ty) (truncate : Bool) :
    sites.Adds (sites.add (.fresh static truncate)).2 := by
  simpa [Adds, add] using Appends.concat sites.sites.toList ⟨static, truncate, rfl⟩

section

variable {sites : Sites}

theorem HasAll.mono {before after : Sites} (h : before.sites.size ≤ after.sites.size)
    {ids : List SiteId} (hids : before.HasAll ids) : after.HasAll ids := by
  intro id hid
  obtain ⟨hpos, hle⟩ := hids id hid
  exact ⟨hpos, Nat.le_trans hle h⟩

@[simp] theorem hasAll_nil : sites.HasAll [] := by
  simp [HasAll]

@[simp] theorem hasAll_cons {id : SiteId} {ids : List SiteId} :
    sites.HasAll (id :: ids) ↔ (0 < id ∧ id ≤ sites.sites.size) ∧ sites.HasAll ids :=
  List.forall_mem_cons

@[simp] theorem hasAll_append {ids others : List SiteId} :
    sites.HasAll (ids ++ others) ↔ sites.HasAll ids ∧ sites.HasAll others :=
  List.forall_mem_append

end
end Sites
end Linking

/-! ## The steps of emission -/

/-- What emission does to sites. -/
def Emitter.Adds (before after : Emitter) : Prop :=
  before.sites.Adds after.sites

namespace Emit

variable {α β : Type} {s : Emitter}

/-- Emission makes sites, and the code it gives has a property. -/
abbrev Makes (s : Emitter) (x : Emit α) (Q : α → Emitter → Prop) : Prop :=
  AdaptiveScript.Yields Emitter.Adds s x False Q

instance : Trans Emitter.Adds Emitter.Adds Emitter.Adds :=
  ⟨Appends.trans⟩

theorem Makes.bind {x : Emit α} {f : α → Emit β} {Q : α → Emitter → Prop} {Q' : β → Emitter → Prop}
    (hx : Makes s x Q)
    (hf : ∀ a s', s.sites.sites.size ≤ s'.sites.sites.size → Q a s' → Makes s' (f a) Q') :
    Makes s (x >>= f) Q' :=
  Yields.bind hx False.elim fun a s' hadds => hf a s' (Linking.Sites.Adds.size_le hadds)

theorem makes_pure {a : α} {Q : α → Emitter → Prop} (hq : Q a s) :
    Makes s (pure a : Emit α) Q :=
  .pure (Appends.refl _) hq

theorem makes_throw {e : CompileError} {Q : α → Emitter → Prop} :
    Makes s (throw e : Emit α) Q :=
  .throw (Appends.refl _) not_false

theorem makes_learn (x : Learn α) : Makes s (learn x) fun _ _ => True :=
  ⟨Appends.refl _, fun _ => trivial, False.elim⟩

theorem makes_layout (shape : ShapeId) : Makes s (layout shape) fun _ _ => True :=
  ⟨Appends.refl _, fun _ => trivial, False.elim⟩

theorem makes_constant (v : Value) : Makes s (constant v) fun _ _ => True :=
  ⟨Appends.refl _, fun _ => trivial, False.elim⟩

theorem makes_site (static : List Ty) (truncate : Bool) :
    Makes s (site static truncate) fun id s' => 0 < id ∧ id ≤ s'.sites.sites.size := by
  refine ⟨Linking.Sites.adds_add s.sites static truncate, fun heq => ?_, False.elim⟩
  cases heq
  constructor
  · exact Nat.succ_pos _
  · show s.sites.sites.size + 1 ≤ (s.sites.sites.push (.fresh static truncate)).size
    simp

variable (scope : Scope)

theorem makes_announce (form : String) : Makes s (scope.announce form) fun _ _ => True :=
  makes_learn _

theorem makes_checkSlot (slot : Nat) : Makes s (scope.checkSlot slot) fun _ _ => True := by
  unfold Scope.checkSlot
  split
  · exact makes_pure trivial
  · exact makes_throw

theorem makes_checkUpvalue (index : Nat) : Makes s (scope.checkUpvalue index) fun _ _ => True := by
  unfold Scope.checkUpvalue
  split
  · exact makes_pure trivial
  · exact makes_throw

theorem makes_checkCaptures (captures : List Capture) :
    ∀ s : Emitter, Makes s (captures.forM scope.checkCapture) fun _ _ => True := by
  induction captures with
  | nil =>
    intro s
    exact makes_pure trivial
  | cons c rest ih =>
    intro s
    have hfirst : Makes s (scope.checkCapture c) fun _ _ => True := by
      cases c with
      | slot index => exact makes_checkSlot scope index
      | upvalue index => exact makes_checkUpvalue scope index
    show Makes s (scope.checkCapture c >>= fun _ => rest.forM scope.checkCapture) _
    exact hfirst.bind fun _ s' _ _ => ih s'

theorem makes_field? (target : Ty) (key : Expr) :
    Makes s (field? target key) fun _ _ => True := by
  unfold field?
  split
  · exact (makes_layout _).bind fun _ _ _ _ => makes_pure trivial
  · exact makes_pure trivial

theorem makes_literal (l : Literal) : Makes s (literal l) fun c s' => s'.sites.HasAll c.sites := by
  cases l with
  | str text =>
    exact (makes_constant _).bind fun _ _ _ _ => makes_pure (by simp [Code.sites])
  | _ => exact makes_pure (by simp [Code.sites])

theorem makes_call {callee : Emitted} {args : List Emitted} (truncate : Bool)
    (hcallee : s.sites.HasAll callee.sites) (hargs : s.sites.HasAll (args.flatMap Emitted.sites)) :
    Makes s (call callee args truncate) fun code s' => s'.sites.HasAll code.sites := by
  refine (makes_site _ truncate).bind fun id s' hle hid => makes_pure ?_
  simp only [CallCode.sites, Emitted.sites_boxed, Emitted.allSites_boxed,
    Linking.Sites.hasAll_cons, Linking.Sites.hasAll_append]
  exact ⟨hid, hcallee.mono hle, hargs.mono hle⟩

/-! ## Expressions -/

mutual

/-- The sites in the code of an expression were made. -/
theorem makes_expr : ∀ (e : Expr) (s : Emitter),
    Makes s (expr scope e) fun c s' => s'.sites.HasAll c.sites
  | .literal l, s => by
    rw [expr]
    exact (makes_announce scope _).bind fun _ _ _ _ => makes_literal l
  | .slot index, s => by
    rw [expr]
    refine (makes_announce scope _).bind fun _ s₁ _ _ => ?_
    exact (makes_checkSlot scope index).bind fun _ s₂ _ _ => makes_pure (by simp [Code.sites])
  | .upvalue index, s => by
    rw [expr]
    refine (makes_announce scope _).bind fun _ s₁ _ _ => ?_
    exact (makes_checkUpvalue scope index).bind fun _ s₂ _ _ => makes_pure (by simp [Code.sites])
  | .global name, s => by
    rw [expr]
    exact (makes_announce scope _).bind fun _ s₁ _ _ => makes_pure (by simp [Code.sites])
  | .binary op left right, s => by
    rw [expr]
    refine (makes_announce scope _).bind fun _ s₁ _ _ => ?_
    refine (makes_expr left s₁).bind fun l s₂ _ hl => ?_
    refine (makes_expr right s₂).bind fun r s₃ hle hr => makes_pure ?_
    simpa using ⟨hl.mono hle, hr⟩
  | .logical op left right, s => by
    rw [expr]
    refine (makes_announce scope _).bind fun _ s₁ _ _ => ?_
    refine (makes_expr left s₁).bind fun l s₂ _ hl => ?_
    refine (makes_expr right s₂).bind fun r s₃ hle hr => makes_pure ?_
    simpa using ⟨hl.mono hle, hr⟩
  | .unary op operand, s => by
    rw [expr]
    refine (makes_announce scope _).bind fun _ s₁ _ _ => ?_
    exact (makes_expr operand s₁).bind fun c s₂ _ hc => makes_pure (by simpa using hc)
  | .index target key, s => by
    rw [expr]
    refine (makes_announce scope _).bind fun _ s₁ _ _ => ?_
    refine (makes_expr target s₁).bind fun t s₂ _ ht => ?_
    refine (makes_field? t.type key).bind fun result s₃ hle₃ _ => ?_
    cases result with
    | some f => exact makes_pure (by simpa [Code.sites] using ht.mono hle₃)
    | none =>
      refine (makes_expr key s₃).bind fun k s₄ hle₄ hk => makes_pure ?_
      simpa [Code.sites] using ⟨ht.mono (Nat.le_trans hle₃ hle₄), hk⟩
  | .call callee args, s => by
    rw [expr]
    refine (makes_announce scope _).bind fun _ s₁ _ _ => ?_
    refine (makes_expr callee s₁).bind fun c s₂ _ hc => ?_
    refine (makes_exprs args s₂).bind fun cs s₃ hle₃ hcs => ?_
    refine (makes_call true (hc.mono hle₃) hcs).bind fun code s₄ _ hcode => ?_
    refine (makes_learn _).bind fun type s₅ hle₅ _ => makes_pure ?_
    simpa [Code.sites] using hcode.mono hle₅
  | .function ref captures, s => by
    rw [expr]
    refine (makes_announce scope _).bind fun _ s₁ _ _ => ?_
    split
    · exact makes_throw
    · exact (makes_checkCaptures scope captures s₁).bind fun _ s₂ _ _ =>
        makes_pure (by simp [Code.sites])
  | .table shape entries, s => by
    rw [expr]
    refine (makes_announce scope _).bind fun _ s₁ _ _ => ?_
    refine (makes_layout shape).bind fun l s₂ _ _ => ?_
    refine (makes_inits l entries s₂).bind fun is s₃ _ his => ?_
    refine (makes_learn _).bind fun type s₄ hle₄ _ => makes_pure ?_
    simpa [Code.sites] using his.mono hle₄

theorem makes_exprs : ∀ (es : List Expr) (s : Emitter),
    Makes s (exprs scope es) fun cs s' => s'.sites.HasAll (cs.flatMap Emitted.sites)
  | [], s => by
    rw [exprs]
    exact makes_pure (by simp)
  | e :: es, s => by
    rw [exprs]
    refine (makes_expr e s).bind fun c s₁ _ hc => ?_
    refine (makes_exprs es s₁).bind fun cs s₂ hle hcs => makes_pure ?_
    simpa using ⟨hc.mono hle, hcs⟩

theorem makes_inits (l : Layout) : ∀ (entries : List Entry) (s : Emitter),
    Makes s (inits scope l entries) fun is s' => s'.sites.HasAll (Init.allSites is)
  | [], s => by
    rw [inits]
    exact makes_pure (by simp [Init.allSites])
  | .named name value :: rest, s => by
    rw [inits]
    refine (makes_expr value s).bind fun v s₁ _ hv => ?_
    refine (makes_inits l rest s₁).bind fun is s₂ hle his => makes_pure ?_
    simpa [allSites_namedInit] using ⟨hv.mono hle, his⟩
  | .keyed key value :: rest, s => by
    rw [inits]
    split
    · refine (makes_expr value s).bind fun v s₁ _ hv => ?_
      refine (makes_inits l rest s₁).bind fun is s₂ hle his => makes_pure ?_
      simpa [allSites_namedInit] using ⟨hv.mono hle, his⟩
    · refine (makes_expr key s).bind fun k s₁ _ hk => ?_
      refine (makes_expr value s₁).bind fun v s₂ hle₂ hv => ?_
      refine (makes_inits l rest s₂).bind fun is s₃ hle₃ his => makes_pure ?_
      simpa [Init.allSites] using ⟨hk.mono (Nat.le_trans hle₂ hle₃), hv.mono hle₃, his⟩
  | .positional value :: rest, s => by
    rw [inits]
    refine (makes_expr value s).bind fun v s₁ _ hv => ?_
    refine (makes_inits l rest s₁).bind fun is s₂ hle his => makes_pure ?_
    simpa [Init.allSites] using ⟨hv.mono hle, his⟩

end

/-! ## Statements -/

theorem makes_step (step : Option Expr) :
    Makes s (Emit.step scope step) fun c s' => s'.sites.HasAll c.sites := by
  cases step with
  | some e => exact makes_expr scope e s
  | none => exact makes_pure (by simp [Code.sites])

/-- The call of a statement: callee and arguments are emitted, then the site is made. -/
theorem makes_callParts (callee : Expr) (args : List Expr) (truncate : Bool)
    {f : Emitted → CallCode → Emit Step}
    (hf : ∀ c code s', s'.sites.HasAll code.sites →
      Makes s' (f c code) fun step s'' => s''.sites.HasAll step.sites) :
    Makes s (do
      let c ← expr scope callee
      let as ← exprs scope args
      let code ← call c as truncate
      f c code) fun step s' => s'.sites.HasAll step.sites := by
  refine (makes_expr scope callee s).bind fun c s₁ _ hc => ?_
  refine (makes_exprs scope args s₁).bind fun cs s₂ hle hcs => ?_
  exact (makes_call truncate (hc.mono hle) hcs).bind fun code s₃ _ hcode => hf c code s₃ hcode

theorem makes_ret (values : List Expr) :
    Makes s (ret scope values) fun step s' => s'.sites.HasAll step.sites := by
  unfold ret
  split
  · refine makes_callParts scope _ _ false fun c code s' hcode => ?_
    refine (makes_learn _).bind fun _ s'' hle _ => makes_pure ?_
    simpa [Step.sites] using hcode.mono hle
  · refine (makes_exprs scope values s).bind fun vs s₁ _ hvs => makes_pure ?_
    simpa [Step.sites] using hvs

theorem makes_discard (e : Expr) :
    Makes s (discard scope e) fun step s' => s'.sites.HasAll step.sites := by
  unfold discard
  split
  · exact makes_callParts scope _ _ true fun c code s' hcode =>
      makes_pure (by simpa [Step.sites] using hcode)
  · exact (makes_expr scope e s).bind fun c s₁ _ hc => makes_pure (by simpa [Step.sites] using hc)

mutual

/-- The sites in the code of a statement were made. -/
theorem makes_stmt : ∀ (inLoop : Bool) (st : Stmt) (s : Emitter),
    Makes s (stmt scope inLoop st) fun step s' => s'.sites.HasAll step.sites
  | inLoop, .declare slot (some e), s => by
    rw [stmt]
    refine (makes_announce scope _).bind fun _ s₁ _ _ => ?_
    refine (makes_checkSlot scope slot).bind fun _ s₂ _ _ => ?_
    exact (makes_expr scope e s₂).bind fun c s₃ _ hc => makes_pure (by simpa [Step.sites] using hc)
  | inLoop, .declare slot none, s => by
    rw [stmt]
    refine (makes_announce scope _).bind fun _ s₁ _ _ => ?_
    exact (makes_checkSlot scope slot).bind fun _ s₂ _ _ =>
      makes_pure (by simp [Step.sites, Code.sites])
  | inLoop, .assign slot value, s => by
    rw [stmt]
    refine (makes_announce scope _).bind fun _ s₁ _ _ => ?_
    refine (makes_checkSlot scope slot).bind fun _ s₂ _ _ => ?_
    exact (makes_expr scope value s₂).bind fun c s₃ _ hc =>
      makes_pure (by simpa [Step.sites] using hc)
  | inLoop, .setUpvalue index value, s => by
    rw [stmt]
    refine (makes_announce scope _).bind fun _ s₁ _ _ => ?_
    refine (makes_checkUpvalue scope index).bind fun _ s₂ _ _ => ?_
    exact (makes_expr scope value s₂).bind fun c s₃ _ hc =>
      makes_pure (by simpa [Step.sites] using hc)
  | inLoop, .setGlobal name value, s => by
    rw [stmt]
    refine (makes_announce scope _).bind fun _ s₁ _ _ => ?_
    exact (makes_expr scope value s₁).bind fun c s₂ _ hc =>
      makes_pure (by simpa [Step.sites] using hc)
  | inLoop, .setIndex target key value, s => by
    rw [stmt]
    refine (makes_announce scope _).bind fun _ s₁ _ _ => ?_
    refine (makes_expr scope target s₁).bind fun t s₂ _ ht => ?_
    refine (makes_field? t.type key).bind fun result s₃ hle₃ _ => ?_
    cases result with
    | some f =>
      refine (makes_expr scope value s₃).bind fun v s₄ hle₄ hv => makes_pure ?_
      simpa [Step.sites] using ⟨ht.mono (Nat.le_trans hle₃ hle₄), hv⟩
    | none =>
      refine (makes_expr scope key s₃).bind fun k s₄ hle₄ hk => ?_
      refine (makes_expr scope value s₄).bind fun v s₅ hle₅ hv => makes_pure ?_
      have hle := Nat.le_trans hle₃ (Nat.le_trans hle₄ hle₅)
      simpa [Step.sites] using ⟨ht.mono hle, hk.mono hle₅, hv⟩
  | inLoop, .expr e, s => by
    rw [stmt]
    exact (makes_announce scope _).bind fun _ s₁ _ _ => makes_discard scope e
  | inLoop, .branch cond thenBlock elseBlock, s => by
    rw [stmt]
    refine (makes_announce scope _).bind fun _ s₁ _ _ => ?_
    refine (makes_expr scope cond s₁).bind fun c s₂ _ hc => ?_
    refine (makes_block inLoop thenBlock s₂).bind fun t s₃ hle₃ ht => ?_
    refine (makes_block inLoop elseBlock s₃).bind fun e s₄ hle₄ he => makes_pure ?_
    simpa [Step.sites] using ⟨hc.mono (Nat.le_trans hle₃ hle₄), ht.mono hle₄, he⟩
  | inLoop, .whileLoop cond body, s => by
    rw [stmt]
    refine (makes_announce scope _).bind fun _ s₁ _ _ => ?_
    refine (makes_expr scope cond s₁).bind fun c s₂ _ hc => ?_
    refine (makes_block true body s₂).bind fun b s₃ hle hb => makes_pure ?_
    simpa [Step.sites] using ⟨hc.mono hle, hb⟩
  | inLoop, .forLoop slot start limit step body, s => by
    rw [stmt]
    refine (makes_announce scope _).bind fun _ s₁ _ _ => ?_
    refine (makes_checkSlot scope slot).bind fun _ s₂ _ _ => ?_
    refine (makes_expr scope start s₂).bind fun a s₃ _ ha => ?_
    refine (makes_expr scope limit s₃).bind fun l s₄ hle₄ hl => ?_
    refine (makes_step scope step).bind fun d s₅ hle₅ hd => ?_
    refine (makes_block true body s₅).bind fun b s₆ hle₆ hb => makes_pure ?_
    have hle := Nat.le_trans hle₅ hle₆
    simpa [Step.sites, sites_range] using
      ⟨ha.mono (Nat.le_trans hle₄ hle), hl.mono hle, hd.mono hle₆, hb⟩
  | inLoop, .ret values, s => by
    rw [stmt]
    exact (makes_announce scope _).bind fun _ s₁ _ _ => makes_ret scope values
  | inLoop, .breakLoop, s => by
    rw [stmt]
    refine (makes_announce scope _).bind fun _ s₁ _ _ => ?_
    split
    · exact makes_pure (by simp [Step.sites])
    · exact makes_throw

/-- The sites in the code of a block were made. -/
theorem makes_block : ∀ (inLoop : Bool) (block : List Stmt) (s : Emitter),
    Makes s (Emit.block scope inLoop block) fun steps s' => s'.sites.HasAll (Step.allSites steps)
  | inLoop, [], s => by
    rw [Emit.block]
    exact makes_pure (by simp [Step.allSites])
  | inLoop, st :: rest, s => by
    rw [Emit.block]
    refine (makes_stmt inLoop st s).bind fun c s₁ _ hc => ?_
    refine (makes_block inLoop rest s₁).bind fun cs s₂ hle hcs => makes_pure ?_
    simpa [Step.allSites] using ⟨hc.mono hle, hcs⟩

end

/-- **The code of a body** goes through sites that were made. -/
theorem makes_body (program : Program) (proto : Prototype) (signature : Signature)
    (maxIterations : Nat) : Makes s (Compile.body program proto signature maxIterations)
      fun r s' => s'.sites.HasAll (Step.allSites r.2) := by
  refine (makes_learn _).bind fun types s₁ _ _ => ?_
  exact (makes_block _ false proto.body s₁).bind fun steps s₂ _ hsteps => makes_pure hsteps

end Emit
end AdaptiveScript
