import AdaptiveScript.Proofs.Emission.Relation
import AdaptiveScript.Proofs.Inference.Analysis
import AdaptiveScript.Proofs.Triple

/-!
# Emission gives code that belongs to its source

`Emit.block` and its parts compute code, and this module says that what they compute is
related to the source by `Emits` and `EmitsBlock`.

Emission learns on the way: it freezes shapes, finds return types and makes call sites, and
all this stays when a later node fails.  So whatever the outcome, what was there before is
still there (`Emitter.Evolves`).  And if the source is well formed, there is code.

Code that was emitted early is related to its source in the setting of that time; the
monotonicity of `Emits` carries it to the end of the emission.
-/

namespace AdaptiveScript

/-! ## Call sites -/

namespace Linking.Sites

/-- Sites after code was emitted: the old ones as they were, and fresh ones for arguments of
types that exist. -/
structure Extends (shapes : Shapes) (before after : Sites) : Prop where
  size_le : before.sites.size ≤ after.sites.size
  get_eq : ∀ {id : Nat}, id ≤ before.sites.size → after.get id = before.get id
  fresh : ∀ {id : Nat}, before.sites.size < id → id ≤ after.sites.size →
    ∃ static truncate, after.get id = .fresh static truncate ∧ ∀ type ∈ static, type.Has shapes

namespace Extends

theorem refl (shapes : Shapes) (sites : Sites) : Extends shapes sites sites where
  size_le := Nat.le_refl _
  get_eq _ := rfl
  fresh hlt hle := absurd hle (Nat.not_le_of_lt hlt)

theorem trans {early late : Shapes} (hg : early.Grows late) {a b c : Sites}
    (hab : Extends early a b) (hbc : Extends late b c) : Extends late a c where
  size_le := Nat.le_trans hab.size_le hbc.size_le
  get_eq hle := (hbc.get_eq (Nat.le_trans hle hab.size_le)).trans (hab.get_eq hle)
  fresh {id} hlt hle := by
    by_cases hmid : id ≤ b.sites.size
    · obtain ⟨static, truncate, hget, hhas⟩ := hab.fresh hlt hmid
      exact ⟨static, truncate, (hbc.get_eq hmid).trans hget,
        fun type htype => (hhas type htype).mono hg⟩
    · exact hbc.fresh (Nat.lt_of_not_le hmid) hle

theorem grows {shapes : Shapes} {before after : Sites} (h : Extends shapes before after) :
    before.Grows after := by
  intro id static truncate hhas
  have hget := h.get_eq hhas.le
  exact ⟨hhas.pos, Nat.le_trans hhas.le h.size_le, by rw [hget, hhas.static_eq],
    by rw [hget, hhas.truncate_eq]⟩

/-- One more site. -/
theorem add (sites : Sites) {shapes : Shapes} {static : List Ty} (truncate : Bool)
    (h : ∀ type ∈ static, type.Has shapes) :
    Extends shapes sites (sites.add (.fresh static truncate)).2 where
  size_le := by simp [Sites.add]
  get_eq {id} hle := by
    cases id with
    | zero => rfl
    | succ index =>
      have hne : index ≠ sites.sites.size := Nat.ne_of_lt hle
      simp [Sites.get, Sites.add, Array.getD_eq_getD_getElem?, Array.getElem?_push, hne]
  fresh {id} hlt hle := by
    have hid : id = (sites.add (.fresh static truncate)).1 := by
      simp only [Sites.add, Array.size_push] at hle ⊢
      exact Nat.le_antisymm hle hlt
    exact ⟨static, truncate, by rw [hid, get_add], h⟩

end Extends

theorem has_add (sites : Sites) (static : List Ty) (truncate : Bool) :
    (sites.add (.fresh static truncate)).2.Has (sites.add (.fresh static truncate)).1 static
      truncate where
  pos := Nat.succ_pos _
  le := by simp [add]
  static_eq := by
    rw [get_add]
    rfl
  truncate_eq := by
    rw [get_add]
    rfl

end Linking.Sites

/-! ## The effects of emission -/

/-- What emission leaves as it was, and what it adds. -/
structure Emitter.Evolves (program : Program) (before after : Emitter) : Prop where
  knowledge : before.knowledge.Evolves program after.knowledge
  sites : before.sites.Extends after.knowledge.shapes after.sites
  constants : ∀ {index : Nat} {v : Value}, before.constants[index]? = some v →
    after.constants[index]? = some v

namespace Emitter.Evolves

variable {program : Program}

theorem refl {s : Emitter} (h : s.knowledge.Sound program) : s.Evolves program s :=
  ⟨.refl h, .refl _ _, fun h => h⟩

theorem trans {a b c : Emitter} (hab : a.Evolves program b) (hbc : b.Evolves program c) :
    a.Evolves program c :=
  ⟨hab.knowledge.trans hbc.knowledge, hab.sites.trans hbc.knowledge.grows.shapes hbc.sites,
    fun h => hbc.constants (hab.constants h)⟩

instance : Trans (Evolves program) (Evolves program) (Evolves program) :=
  ⟨trans⟩

end Emitter.Evolves

namespace Emit

variable {α β : Type}

/-- What emission does from a state. -/
abbrev Yields (program : Program) (s : Emitter) (x : Emit α) (ok : Prop)
    (Q : α → Emitter → Prop) : Prop :=
  AdaptiveScript.Yields (Emitter.Evolves program) s x ok Q

/-! ## The steps of emission -/

section

variable {program : Program} {s : Emitter}

/-- What is learnt while emitting. -/
theorem yields_learn {x : Learn α} {bound : Nat} {Q : α → Knowledge → Prop} {ok : Prop}
    (h : Learn.Gives program bound x s.knowledge Q) :
    Yields program s (learn x) ok fun a s' => Q a s'.knowledge :=
  ⟨⟨h.evolves, .refl _ _, fun hv => hv⟩, fun heq => by cases heq; exact h.post,
    fun _ => ⟨_, rfl⟩⟩

theorem yields_constant {ok : Prop} (h : s.knowledge.Sound program) (v : Value) :
    Yields program s (constant v) ok fun index s' => s'.constants[index]? = some v := by
  refine ⟨⟨.refl h, .refl _ _, fun {index w} hw => ?_⟩, fun heq => ?_, fun _ => ⟨_, rfl⟩⟩
  · have hlt : index < s.constants.size := (Array.getElem?_eq_some_iff.1 hw).1
    show (s.constants.push v)[index]? = some w
    rw [Array.getElem?_push, if_neg (Nat.ne_of_lt hlt), hw]
  · cases heq
    show (s.constants.push v)[s.constants.size]? = some v
    rw [Array.getElem?_push, if_pos rfl]

theorem yields_site {ok : Prop} (h : s.knowledge.Sound program) {static : List Ty}
    (hstatic : ∀ type ∈ static, type.Has s.knowledge.shapes) (truncate : Bool) :
    Yields program s (site static truncate) ok fun id s' => s'.sites.Has id static truncate :=
  ⟨⟨.refl h, .add _ truncate hstatic, fun hv => hv⟩,
    fun heq => by cases heq; exact Linking.Sites.has_add _ static truncate, fun _ => ⟨_, rfl⟩⟩

/-- A shape that was compiled keeps its layout. -/
theorem recalls_compileShape {k : Knowledge} {shape : ShapeId}
    (hforest : ((Learn.compileShape shape).run k).2.shapes.Forest)
    (hfrozen : ((Learn.compileShape shape).run k).2.shapes.isFrozen shape = true)
    (hlayout : ((Learn.compileShape shape).run k).2.shapes.layout shape = k.shapes.layout shape) :
    Learn.Recalls program (Learn.compileShape shape) k := by
  intro later hev _
  have hlate := hev.grows.shapes.isFrozen hforest hev.sound.forest hfrozen
  rw [Learn.run_compileShape_of_frozen hlate]
  refine ⟨?_, .refl hev.sound⟩
  rw [hev.grows.shapes.layout_eq hforest hev.sound.forest hfrozen, hlayout,
    (Learn.run_compileShape k shape).1]

theorem gives_compileShape {bound : Nat} {k : Knowledge} (h : k.Sound program) {shape : ShapeId}
    (hshape : k.shapes.Has shape) :
    Learn.Gives program bound (Learn.compileShape shape) k fun l after =>
      l.Compiled after.shapes ∧ after.shapes.resolve shape = l.shape := by
  obtain ⟨hlayout, hshapes, hreturns⟩ := Learn.run_compileShape k shape
  by_cases hfrozen : k.shapes.isFrozen shape = true
  · rw [if_pos hfrozen] at hshapes
    refine .of_shapes h ?_ hreturns ?_ (recalls_compileShape ?_ ?_ ?_) ?_
    · rw [hshapes]
      exact .refl h.forest
    · rw [hshapes]
      exact .refl _
    · rw [hshapes]
      exact h.forest
    · rw [hshapes]
      exact hfrozen
    · rw [hshapes]
    · rw [hlayout, hshapes]
      exact ⟨Layout.compiled_layout h.forest hfrozen, rfl⟩
  · rw [if_neg hfrozen] at hshapes
    have hev := Shapes.evolves_freeze h.forest shape
    have hfreeze := Shapes.isFrozen_freeze h.forest hshape
    refine .of_shapes h ?_ hreturns ?_ (recalls_compileShape ?_ ?_ ?_) ?_
    · rw [hshapes]
      exact hev
    · rw [hshapes]
      exact Shapes.conserves_freeze shape
    · rw [hshapes]
      exact hev.forest
    · rw [hshapes]
      exact hfreeze
    · rw [hshapes, Shapes.layout_freeze h.forest hshape]
    · rw [hlayout, hshapes, ← Shapes.layout_freeze h.forest hshape]
      exact ⟨Layout.compiled_layout hev.forest hfreeze, rfl⟩

theorem yields_layout {ok : Prop} (h : s.knowledge.Sound program) {shape : ShapeId}
    (hshape : s.knowledge.shapes.Has shape) :
    Yields program s (layout shape) ok fun l s' =>
      l.Compiled s'.knowledge.shapes ∧ s'.knowledge.shapes.resolve shape = l.shape := by
  have hcompile : Learn.Gives program 0 (Learn.compileShape shape) s.knowledge _ :=
    gives_compileShape h hshape
  refine ⟨⟨hcompile.evolves, .refl _ _, fun hv => hv⟩, fun heq => ?_, fun _ => ⟨_, rfl⟩⟩
  cases heq
  exact hcompile.post

end
end Emit

/-! ## Emission of a body -/

/-- The setting of a function whose code is being emitted. -/
def Emitter.setting (s : Emitter) (scope : Scope) : Setting :=
  ⟨scope.program, s.knowledge, s.sites, s.constants, scope.proto, scope.types.typing⟩

/-- What is known is true, and the types found for the function exist. -/
structure Scope.Ready (scope : Scope) (s : Emitter) : Prop where
  sound : s.knowledge.Sound scope.program
  typing : scope.types.typing.Has s.knowledge.shapes

namespace Scope.Ready

variable {scope : Scope} {s s' : Emitter}

theorem evolves (h : scope.Ready s) (hev : s.Evolves scope.program s') : scope.Ready s' :=
  ⟨hev.knowledge.sound, h.typing.mono hev.knowledge.grows.shapes⟩

theorem grows (h : scope.Ready s) (hev : s.Evolves scope.program s') :
    (s.setting scope).Grows (s'.setting scope) where
  program _ _ hproto := hproto
  knowledge := hev.knowledge.grows
  forest := h.sound.forest
  forest_after := hev.knowledge.sound.forest
  sites := hev.sites.grows
  constants := hev.constants
  proto := rfl
  typing := rfl

end Scope.Ready

/-- The type of code names a shape that exists. -/
theorem Emits.has {σ : Setting} (hσ : σ.typing.Has σ.shapes) {e : Expr} {c : Emitted}
    (h : Emits σ e c) : c.type.Has σ.shapes := by
  cases h with
  | nil | bool | int | float | str | global | field | index | function => trivial
  | slot =>
    rw [Emitted.type_narrow]
    exact hσ.slot _
  | upvalue =>
    rw [Emitted.type_narrow]
    exact hσ.upvalue _
  | binary =>
    rw [Emitted.type_binary]
    exact Inference.has_binaryType _ _ _ _
  | logical hl _ =>
    rw [Emitted.type_logical]
    exact Inference.has_join (has hσ hl)
  | unary h =>
    rw [Emitted.type_unary]
    exact Inference.has_unaryType _ (has hσ h)
  | call _ _ _ _ hhas =>
    rw [Emitted.type_narrow]
    exact hhas
  | table hl _ _ => exact hl.has

theorem EmitsAll.has {σ : Setting} (hσ : σ.typing.Has σ.shapes) :
    ∀ {es : List Expr} {cs : List Emitted}, EmitsAll σ es cs →
      ∀ type ∈ cs.map Emitted.type, type.Has σ.shapes
  | _, _, .nil, _, hmem => by cases hmem
  | _, _, .cons h hs, type, hmem => by
    rcases List.mem_cons.1 hmem with heq | hmem
    · rw [heq]
      exact h.has hσ
    · exact EmitsAll.has hσ hs type hmem

namespace Emit

variable {scope : Scope} {s : Emitter}

theorem yields_announce (h : scope.Ready s) (form : String) {ok : Prop} :
    Yields scope.program s (scope.announce form) ok fun _ _ => True := by
  have hnote : Learn.Gives scope.program 0 (Learn.note (.emitting form scope.proto.ref.name))
      s.knowledge _ := Learn.gives_note h.sound _
  exact (yields_learn hnote).mono id fun _ _ _ _ => trivial

theorem yields_checkSlot (h : scope.Ready s) (slot : Nat) :
    Yields scope.program s (scope.checkSlot slot) (slot < scope.proto.localCount) fun _ _ =>
      slot < scope.proto.localCount := by
  unfold Scope.checkSlot
  split
  · next hslot => exact .pure (.refl h.sound) hslot
  · next hslot => exact .throw (.refl h.sound) hslot

theorem yields_checkUpvalue (h : scope.Ready s) (index : Nat) :
    Yields scope.program s (scope.checkUpvalue index) (index < scope.proto.upvalues.size)
      fun _ _ => index < scope.proto.upvalues.size := by
  unfold Scope.checkUpvalue
  split
  · next hindex => exact .pure (.refl h.sound) hindex
  · next hindex => exact .throw (.refl h.sound) hindex

theorem yields_checkCapture (h : scope.Ready s) (c : Capture) :
    Yields scope.program s (scope.checkCapture c) (c.InRange scope.proto) fun _ _ =>
      c.InRange scope.proto := by
  cases c with
  | slot index => exact yields_checkSlot h index
  | upvalue index => exact yields_checkUpvalue h index

theorem yields_checkCaptures : ∀ (captures : List Capture) {s : Emitter}, scope.Ready s →
    Yields scope.program s (captures.forM scope.checkCapture)
      (∀ c ∈ captures, c.InRange scope.proto) fun _ _ => ∀ c ∈ captures, c.InRange scope.proto
  | [], s, h => .pure (.refl h.sound) fun c hc => by cases hc
  | c :: rest, s, h => by
    show Yields _ s (scope.checkCapture c >>= fun _ => rest.forM scope.checkCapture) _ _
    refine (yields_checkCapture h c).bind (fun hall => ⟨hall c (List.mem_cons_self ..),
      fun c' hc' => hall c' (List.mem_cons_of_mem _ hc')⟩) fun _ s₁ hev₁ hc => ?_
    refine (yields_checkCaptures rest (h.evolves hev₁)).mono id fun _ _ _ hrest c' hc' => ?_
    rcases List.mem_cons.1 hc' with rfl | hc'
    · exact hc
    · exact hrest c' hc'

theorem yields_literal (h : scope.Ready s) (l : Literal) {ok : Prop} :
    Yields scope.program s (literal l) ok fun c s' => Emits (s'.setting scope) (.literal l) c := by
  cases l with
  | nil => exact .pure (.refl h.sound) .nil
  | bool b => exact .pure (.refl h.sound) (.bool b)
  | int n => exact .pure (.refl h.sound) (.int n)
  | float x => exact .pure (.refl h.sound) (.float x)
  | str text =>
    exact (yields_constant h.sound _).seq fun index s₁ hev₁ hindex =>
      .pure (.refl hev₁.knowledge.sound) (.str hindex)

/-- A field that is found lies in a compiled layout. -/
theorem yields_field? {program : Program} (h : s.knowledge.Sound program) {target : Ty}
    (htarget : target.Has s.knowledge.shapes) (key : Expr) {ok : Prop} :
    Yields program s (field? target key) ok fun result s' => ∀ f, result = some f →
      key.constantKey? = some f.key ∧ ∃ l, l.Compiled s'.knowledge.shapes ∧ f.In l := by
  unfold field?
  split
  · next shape name hshape hkey =>
    have hhas : s.knowledge.shapes.Has shape := by
      cases target <;> cases hshape
      exact htarget
    refine (yields_layout h hhas).seq fun l s₁ hev₁ ⟨hl, _⟩ =>
      .pure (.refl hev₁.knowledge.sound) fun f hf => ?_
    obtain ⟨slot, hslot, rfl⟩ := Option.map_eq_some_iff.1 hf
    exact ⟨hkey, l, hl, rfl, hslot⟩
  · exact .pure (.refl h) fun f hf => by cases hf

/-- The site of a call is made for the types of its arguments. -/
theorem yields_call (h : scope.Ready s) (callee : Emitted) {args : List Expr} {cs : List Emitted}
    (hcs : EmitsAll (s.setting scope) args cs) (truncate : Bool) {ok : Prop} :
    Yields scope.program s (call callee cs truncate) ok fun code s' => ∃ id,
      code = .mk id callee.boxed (cs.map Emitted.boxed) ∧
        s'.sites.Has id (cs.map Emitted.type) truncate := by
  have hhas := hcs.has (σ := s.setting scope) h.typing
  exact (yields_site h.sound hhas truncate).seq fun id s₁ hev₁ hid =>
    .pure (.refl hev₁.knowledge.sound) ⟨id, rfl, hid⟩

mutual

/-- Emission of an expression gives code that belongs to it. -/
theorem yields_expr (scope : Scope) : ∀ (e : Expr) {s : Emitter}, scope.Ready s →
    e.Scoped scope.program s.knowledge.shapes →
    Yields scope.program s (expr scope e) (e.WellFormed scope.program scope.proto)
      fun c s' => Emits (s'.setting scope) e c
  | .literal l, s, h, _ => by
    rw [expr]
    exact (yields_announce h _).seq fun _ s₁ hev₁ _ => yields_literal (h.evolves hev₁) l
  | .slot i, s, h, _ => by
    rw [expr]
    refine (yields_announce h _).seq fun _ s₁ hev₁ _ => ?_
    refine (yields_checkSlot (h.evolves hev₁) i).bind (fun hwf => ⟨hwf, trivial⟩)
      fun _ s₂ hev₂ hslot => ?_
    exact .pure (.refl hev₂.knowledge.sound) (.slot (σ := s₂.setting scope) hslot)
  | .upvalue i, s, h, _ => by
    rw [expr]
    refine (yields_announce h _).seq fun _ s₁ hev₁ _ => ?_
    refine (yields_checkUpvalue (h.evolves hev₁) i).bind (fun hwf => ⟨hwf, trivial⟩)
      fun _ s₂ hev₂ hindex => ?_
    exact .pure (.refl hev₂.knowledge.sound) (.upvalue (σ := s₂.setting scope) hindex)
  | .global name, s, h, _ => by
    rw [expr]
    exact (yields_announce h _).seq fun _ s₁ hev₁ _ => .pure (.refl hev₁.knowledge.sound) (.global name)
  | .binary op left right, s, h, hscope => by
    obtain ⟨hleft, hright⟩ := Expr.scoped_binary.1 hscope
    rw [expr]
    refine (yields_announce h _).seq fun _ s₁ hev₁ _ => ?_
    refine (yields_expr scope left (h.evolves hev₁)
      (hleft.mono hev₁.knowledge.grows.shapes)).bind id fun l s₂ hev₂ hl => ?_
    have hev₁₂ := hev₁.trans hev₂
    refine (yields_expr scope right (h.evolves hev₁₂)
      (hright.mono hev₁₂.knowledge.grows.shapes)).bind (fun hwf => ⟨hwf, trivial⟩)
      fun r s₃ hev₃ hr => ?_
    exact .pure (.refl hev₃.knowledge.sound) (.binary (hl.mono ((h.evolves hev₁₂).grows hev₃)) hr)
  | .logical op left right, s, h, hscope => by
    obtain ⟨hleft, hright⟩ := Expr.scoped_logical.1 hscope
    rw [expr]
    refine (yields_announce h _).seq fun _ s₁ hev₁ _ => ?_
    refine (yields_expr scope left (h.evolves hev₁)
      (hleft.mono hev₁.knowledge.grows.shapes)).bind id fun l s₂ hev₂ hl => ?_
    have hev₁₂ := hev₁.trans hev₂
    refine (yields_expr scope right (h.evolves hev₁₂)
      (hright.mono hev₁₂.knowledge.grows.shapes)).bind (fun hwf => ⟨hwf, trivial⟩)
      fun r s₃ hev₃ hr => ?_
    exact .pure (.refl hev₃.knowledge.sound) (.logical (hl.mono ((h.evolves hev₁₂).grows hev₃)) hr)
  | .unary op operand, s, h, hscope => by
    rw [expr]
    refine (yields_announce h _).seq fun _ s₁ hev₁ _ => ?_
    refine (yields_expr scope operand (h.evolves hev₁)
      ((Expr.scoped_unary.1 hscope).mono hev₁.knowledge.grows.shapes)).bind
      (fun hwf => ⟨hwf, trivial⟩) fun c s₂ hev₂ hc => ?_
    exact .pure (.refl hev₂.knowledge.sound) (.unary hc)
  | .index target key, s, h, hscope => by
    obtain ⟨htarget, hkey⟩ := Expr.scoped_index.1 hscope
    rw [expr]
    refine (yields_announce h _).seq fun _ s₁ hev₁ _ => ?_
    refine (yields_expr scope target (h.evolves hev₁)
      (htarget.mono hev₁.knowledge.grows.shapes)).bind id fun t s₂ hev₂ ht => ?_
    have hev₁₂ := hev₁.trans hev₂
    have h₂ := h.evolves hev₁₂
    refine (yields_field? h₂.sound (ht.has h₂.typing) key).seq fun result s₃ hev₃ hfield => ?_
    have ht₃ := ht.mono (h₂.grows hev₃)
    have hev₁₃ := hev₁₂.trans hev₃
    cases result with
    | some f =>
      obtain ⟨hconstant, l, hl, hin⟩ := hfield f rfl
      exact .pure (.refl hev₃.knowledge.sound) (.field ht₃ hconstant hl hin)
    | none =>
      refine (yields_expr scope key (h.evolves hev₁₃)
        (hkey.mono hev₁₃.knowledge.grows.shapes)).bind (fun hwf => ⟨hwf, trivial⟩)
        fun k s₄ hev₄ hk => ?_
      exact .pure (.refl hev₄.knowledge.sound) (.index (ht₃.mono ((h.evolves hev₁₃).grows hev₄)) hk)
  | .call callee args, s, h, hscope => by
    obtain ⟨hcallee, hargs⟩ := Expr.scoped_call.1 hscope
    rw [expr]
    refine (yields_announce h _).seq fun _ s₁ hev₁ _ => ?_
    refine (yields_expr scope callee (h.evolves hev₁)
      (hcallee.mono hev₁.knowledge.grows.shapes)).bind id fun c s₂ hev₂ hc => ?_
    have hev₁₂ := hev₁.trans hev₂
    refine (yields_exprs scope args (h.evolves hev₁₂)
      (hargs.mono hev₁₂.knowledge.grows.shapes)).bind (fun hwf => ⟨hwf, trivial⟩)
      fun cs s₃ hev₃ hcs => ?_
    have hev₁₃ := hev₁₂.trans hev₃
    have h₃ := h.evolves hev₁₃
    refine (yields_call h₃ c hcs true).seq fun code s₄ hev₄ ⟨id, hcode, hid⟩ => ?_
    have hev₁₄ := hev₁₃.trans hev₄
    have h₄ := h.evolves hev₁₄
    have hc₄ := hc.mono ((h.evolves hev₁₂).grows (hev₃.trans hev₄))
    refine (yields_learn (Inference.gives_callType
      (Inference.returnTypesOf_sound scope.program scope.types.maxIterations) h₄.sound
      (Emits.hasType (σ := s₄.setting scope) h₄.sound.forest hc₄) args)).seq fun type s₅ hev₅ ⟨htype, hhas⟩ => ?_
    rw [hcode]
    have hg₅ := h₄.grows hev₅
    exact .pure (.refl hev₅.knowledge.sound) (.call (hc₄.mono hg₅)
      (hcs.mono (h₃.grows (hev₄.trans hev₅))) (hg₅.sites hid) htype hhas)
  | .function ref captures, s, h, hscope => by
    obtain ⟨proto, hproto⟩ := Expr.scoped_function.1 hscope
    have hcount : scope.upvalueCount ref = proto.upvalues.size := by
      simp [Scope.upvalueCount, hproto]
    rw [expr, hcount]
    refine (yields_announce h _).seq fun _ s₁ hev₁ _ => ?_
    have h₁ := h.evolves hev₁
    by_cases hlength : captures.length = proto.upvalues.size
    · simp only [hlength, ne_eq, not_true_eq_false, ↓reduceIte]
      refine (yields_checkCaptures captures h₁).bind (fun hwf => ⟨hwf.2, trivial⟩)
        fun _ s₂ hev₂ hcaptures => ?_
      exact .pure (.refl hev₂.knowledge.sound) (.function hproto hlength hcaptures)
    · simp only [ne_eq, hlength, not_false_eq_true, ↓reduceIte]
      refine (Yields.throw (.refl h₁.sound) fun hwf => hlength ?_)
      rw [hwf.1]
      exact hcount
  | .table shape entries, s, h, hscope => by
    obtain ⟨hshape, hentries⟩ := Expr.scoped_table.1 hscope
    rw [expr]
    refine (yields_announce h _).seq fun _ s₁ hev₁ _ => ?_
    refine (yields_layout hev₁.knowledge.sound
      (hev₁.knowledge.grows.shapes.has hshape)).seq fun l s₂ hev₂ ⟨hl, hresolve⟩ => ?_
    have hev₁₂ := hev₁.trans hev₂
    have h₂ := h.evolves hev₁₂
    refine (yields_inits scope l entries h₂
      (hentries.mono hev₁₂.knowledge.grows.shapes)).bind (fun hwf => ⟨hwf, trivial⟩)
      fun is s₃ hev₃ his => ?_
    have h₃ := h₂.evolves hev₃
    have htypes : Learn.Gives scope.program 0 (Learn.tableType shape) s₃.knowledge _ :=
      Learn.gives_tableType h₃.sound shape
    refine (yields_learn htypes).seq fun type s₄ hev₄ htype => ?_
    -- the shape is frozen, so it is still named as it was before the entries
    have hev₃₄ := hev₃.trans hev₄
    have hg := h₂.grows hev₃₄
    have hnamed : s₄.knowledge.shapes.resolve shape = l.shape := by
      rw [← hev₃₄.knowledge.grows.shapes.resolve_resolve h₂.sound.forest
        hev₄.knowledge.sound.forest, hresolve]
      exact hev₄.knowledge.sound.forest.resolve_of_frozen (hg.compiled hl).frozen
    rw [htype, hnamed]
    exact .pure (.refl hev₄.knowledge.sound)
      (.table (hg.compiled hl) hnamed (his.mono (h₃.grows hev₄)))

theorem yields_exprs (scope : Scope) : ∀ (es : List Expr) {s : Emitter}, scope.Ready s →
    Expr.AllScoped scope.program s.knowledge.shapes es →
    Yields scope.program s (exprs scope es) (Expr.AllWellFormed scope.program scope.proto es)
      fun cs s' => EmitsAll (s'.setting scope) es cs
  | [], s, h, _ => by
    rw [exprs]
    exact .pure (.refl h.sound) .nil
  | e :: es, s, h, hscope => by
    obtain ⟨he, hes⟩ := Expr.allScoped_cons.1 hscope
    rw [exprs]
    refine (yields_expr scope e h he).bind id fun c s₁ hev₁ hc => ?_
    have h₁ := h.evolves hev₁
    refine (yields_exprs scope es h₁ (hes.mono hev₁.knowledge.grows.shapes)).bind
      (fun hwf => ⟨hwf, trivial⟩) fun cs s₂ hev₂ hcs => ?_
    exact .pure (.refl hev₂.knowledge.sound) (.cons (hc.mono (h₁.grows hev₂)) hcs)

theorem yields_inits (scope : Scope) (l : Layout) : ∀ (entries : List Entry) {s : Emitter},
    scope.Ready s → Expr.EntriesScoped scope.program s.knowledge.shapes entries →
    Yields scope.program s (inits scope l entries)
      (Expr.EntriesWellFormed scope.program scope.proto entries)
      fun is s' => EmitsInits (s'.setting scope) l entries is
  | [], s, h, _ => by
    rw [inits]
    exact .pure (.refl h.sound) .nil
  | .named name value :: rest, s, h, hscope => by
    obtain ⟨hvalue, hrest⟩ := Expr.entriesScoped_named.1 hscope
    rw [inits]
    refine (yields_expr scope value h hvalue).bind id fun v s₁ hev₁ hv => ?_
    have h₁ := h.evolves hev₁
    refine (yields_inits scope l rest h₁ (hrest.mono hev₁.knowledge.grows.shapes)).bind
      (fun hwf => ⟨hwf, trivial⟩) fun is s₂ hev₂ his => ?_
    exact .pure (.refl hev₂.knowledge.sound) (.named (hv.mono (h₁.grows hev₂)) his)
  | .keyed key value :: rest, s, h, hscope => by
    obtain ⟨hkey, hvalue, hrest⟩ := Expr.entriesScoped_keyed.1 hscope
    rw [inits]
    split
    · next name hconstant =>
      refine (yields_expr scope value h hvalue).bind (fun hwf => hwf.2) fun v s₁ hev₁ hv => ?_
      have h₁ := h.evolves hev₁
      refine (yields_inits scope l rest h₁ (hrest.mono hev₁.knowledge.grows.shapes)).bind
        (fun hwf => ⟨hwf, trivial⟩) fun is s₂ hev₂ his => ?_
      exact .pure (.refl hev₂.knowledge.sound) (.constant hconstant (hv.mono (h₁.grows hev₂)) his)
    · refine (yields_expr scope key h hkey).bind id fun k s₁ hev₁ hk => ?_
      have h₁ := h.evolves hev₁
      refine (yields_expr scope value h₁ (hvalue.mono hev₁.knowledge.grows.shapes)).bind id
        fun v s₂ hev₂ hv => ?_
      have hev₁₂ := hev₁.trans hev₂
      have h₂ := h.evolves hev₁₂
      refine (yields_inits scope l rest h₂ (hrest.mono hev₁₂.knowledge.grows.shapes)).bind
        (fun hwf => ⟨hwf, trivial⟩) fun is s₃ hev₃ his => ?_
      exact .pure (.refl hev₃.knowledge.sound) (.keyed (hk.mono (h₁.grows (hev₂.trans hev₃)))
        (hv.mono (h₂.grows hev₃)) his)
  | .positional value :: rest, s, h, hscope => by
    obtain ⟨hvalue, hrest⟩ := Expr.entriesScoped_positional.1 hscope
    rw [inits]
    refine (yields_expr scope value h hvalue).bind id fun v s₁ hev₁ hv => ?_
    have h₁ := h.evolves hev₁
    refine (yields_inits scope l rest h₁ (hrest.mono hev₁.knowledge.grows.shapes)).bind
      (fun hwf => ⟨hwf, trivial⟩) fun is s₂ hev₂ his => ?_
    exact .pure (.refl hev₂.knowledge.sound) (.positional (hv.mono (h₁.grows hev₂)) his)

end

theorem yields_step (h : scope.Ready s) (step : Option Expr)
    (hscope : ∀ e ∈ step.toList, e.Scoped scope.program s.knowledge.shapes) :
    Yields scope.program s (Emit.step scope step)
      (∀ e ∈ step, e.WellFormed scope.program scope.proto)
      fun c s' => EmitsStep (s'.setting scope) step c := by
  cases step with
  | none => exact .pure (.refl h.sound) .none
  | some e =>
    exact (yields_expr scope e h (hscope e (by simp))).mono (fun hwf => hwf e rfl)
      fun c s₁ _ hc => .some hc

/-- The callee, the arguments and the site of a call that stands alone. -/
theorem yields_callParts (h : scope.Ready s) {callee : Expr} {args : List Expr}
    (hscope : (Expr.call callee args).Scoped scope.program s.knowledge.shapes) (truncate : Bool)
    {f : Emitted → CallCode → Emit α} {Q : α → Emitter → Prop}
    (hf : ∀ c cs code s', s.Evolves scope.program s' → Emits (s'.setting scope) callee c →
      EmitsAll (s'.setting scope) args cs →
      (∃ id, code = .mk id c.boxed (cs.map Emitted.boxed) ∧
        s'.sites.Has id (cs.map Emitted.type) truncate) →
      Yields scope.program s' (f c code) True Q) :
    Yields scope.program s (do
        let c ← expr scope callee
        let as ← exprs scope args
        let code ← call c as truncate
        f c code)
      ((Expr.call callee args).WellFormed scope.program scope.proto) Q := by
  obtain ⟨hcallee, hargs⟩ := Expr.scoped_call.1 hscope
  refine (yields_expr scope callee h hcallee).bind id fun c s₁ hev₁ hc => ?_
  have h₁ := h.evolves hev₁
  refine (yields_exprs scope args h₁ (hargs.mono hev₁.knowledge.grows.shapes)).bind
    (fun hwf => ⟨hwf, trivial⟩) fun cs s₂ hev₂ hcs => ?_
  have hev₁₂ := hev₁.trans hev₂
  have h₂ := h.evolves hev₁₂
  refine (yields_call h₂ c hcs truncate).seq fun code s₃ hev₃ hcode => ?_
  exact hf c cs code s₃ (hev₁₂.trans hev₃) (hc.mono (h₁.grows (hev₂.trans hev₃)))
    (hcs.mono (h₂.grows hev₃)) hcode

/-- Emission of a return. -/
theorem yields_ret (h : scope.Ready s) (values : List Expr)
    (hscope : Expr.AllScoped scope.program s.knowledge.shapes values) (inLoop : Bool) :
    Yields scope.program s (ret scope values)
      (Expr.AllWellFormed scope.program scope.proto values)
      fun c s' => EmitsStmt (s'.setting scope) inLoop (.ret values) c := by
  unfold ret
  split
  · next callee args =>
    refine (yields_callParts h (Expr.allScoped_cons.1 hscope).1 false
      fun c cs code s₁ hev₁ hc hcs ⟨id, hcode, hid⟩ => ?_).mono And.left fun _ _ _ hq => hq
    have h₁ := h.evolves hev₁
    refine (yields_learn (Inference.gives_callTypes
      (Inference.returnTypesOf_sound scope.program scope.types.maxIterations) h₁.sound
      c.type)).seq fun _ s₂ hev₂ _ => ?_
    have hg := h₁.grows hev₂
    rw [hcode]
    exact .pure (.refl hev₂.knowledge.sound) (.retCall (hc.mono hg) (hcs.mono hg) (hg.sites hid))
  · next hcall =>
    refine (yields_exprs scope values h hscope).bind (fun hwf => ⟨hwf, trivial⟩)
      fun cs s₁ hev₁ hcs => ?_
    exact .pure (.refl hev₁.knowledge.sound) (.ret (fun callee args heq => hcall callee args heq) hcs)

/-- Emission of an expression statement. -/
theorem yields_discard (h : scope.Ready s) (e : Expr)
    (hscope : e.Scoped scope.program s.knowledge.shapes) (inLoop : Bool) :
    Yields scope.program s (discard scope e) (e.WellFormed scope.program scope.proto)
      fun c s' => EmitsStmt (s'.setting scope) inLoop (.expr e) c := by
  unfold discard
  split
  · next callee args =>
    refine yields_callParts h hscope true fun c cs code s₁ hev₁ hc hcs ⟨id, hcode, hid⟩ => ?_
    rw [hcode]
    exact .pure (.refl hev₁.knowledge.sound) (.call hc hcs hid)
  · refine (yields_expr scope e h hscope).bind (fun hwf => ⟨hwf, trivial⟩) fun c s₁ hev₁ hc => ?_
    exact .pure (.refl hev₁.knowledge.sound) (.discard hc)

mutual

/-- Emission of a statement gives code that belongs to it. -/
theorem yields_stmt (scope : Scope) (inLoop : Bool) : ∀ (t : Stmt) {s : Emitter},
    scope.Ready s → t.Every (Stmt.Scoped scope.program s.knowledge.shapes) →
    Yields scope.program s (stmt scope inLoop t) (t.WellFormed scope.program scope.proto inLoop)
      fun c s' => EmitsStmt (s'.setting scope) inLoop t c
  | .declare slot none, s, h, _ => by
    rw [stmt]
    refine (yields_announce h _).seq fun _ s₁ hev₁ _ => ?_
    refine (yields_checkSlot (h.evolves hev₁) slot).bind (fun hwf => ⟨hwf.1, trivial⟩)
      fun _ s₂ hev₂ hslot => ?_
    exact .pure (.refl hev₂.knowledge.sound) (.declareNil (σ := s₂.setting scope) hslot)
  | .declare slot (some e), s, h, hscope => by
    rw [stmt]
    refine (yields_announce h _).seq fun _ s₁ hev₁ _ => ?_
    refine (yields_checkSlot (h.evolves hev₁) slot).bind id fun _ s₂ hev₂ hslot => ?_
    have hev₁₂ := hev₁.trans hev₂
    refine (yields_expr scope e (h.evolves hev₁₂)
      ((hscope e (List.mem_cons_self ..)).mono hev₁₂.knowledge.grows.shapes)).bind
      (fun hwf => ⟨hwf e rfl, trivial⟩) fun c s₃ hev₃ hc => ?_
    exact .pure (.refl hev₃.knowledge.sound) (.declare (σ := s₃.setting scope) hslot hc)
  | .assign slot e, s, h, hscope => by
    rw [stmt]
    refine (yields_announce h _).seq fun _ s₁ hev₁ _ => ?_
    refine (yields_checkSlot (h.evolves hev₁) slot).bind id fun _ s₂ hev₂ hslot => ?_
    have hev₁₂ := hev₁.trans hev₂
    refine (yields_expr scope e (h.evolves hev₁₂)
      ((hscope e (List.mem_cons_self ..)).mono hev₁₂.knowledge.grows.shapes)).bind
      (fun hwf => ⟨hwf, trivial⟩) fun c s₃ hev₃ hc => ?_
    exact .pure (.refl hev₃.knowledge.sound) (.assign (σ := s₃.setting scope) hslot hc)
  | .setUpvalue index e, s, h, hscope => by
    rw [stmt]
    refine (yields_announce h _).seq fun _ s₁ hev₁ _ => ?_
    refine (yields_checkUpvalue (h.evolves hev₁) index).bind id fun _ s₂ hev₂ hindex => ?_
    have hev₁₂ := hev₁.trans hev₂
    refine (yields_expr scope e (h.evolves hev₁₂)
      ((hscope e (List.mem_cons_self ..)).mono hev₁₂.knowledge.grows.shapes)).bind
      (fun hwf => ⟨hwf, trivial⟩) fun c s₃ hev₃ hc => ?_
    exact .pure (.refl hev₃.knowledge.sound) (.setUpvalue (σ := s₃.setting scope) hindex hc)
  | .setGlobal name e, s, h, hscope => by
    rw [stmt]
    refine (yields_announce h _).seq fun _ s₁ hev₁ _ => ?_
    refine (yields_expr scope e (h.evolves hev₁)
      ((hscope e (List.mem_cons_self ..)).mono hev₁.knowledge.grows.shapes)).bind
      (fun hwf => ⟨hwf, trivial⟩) fun c s₂ hev₂ hc => ?_
    exact .pure (.refl hev₂.knowledge.sound) (.setGlobal hc)
  | .setIndex target key value, s, h, hscope => by
    have htarget := hscope target (by simp [Stmt.operands])
    have hkey := hscope key (by simp [Stmt.operands])
    have hvalue := hscope value (by simp [Stmt.operands])
    rw [stmt]
    refine (yields_announce h _).seq fun _ s₁ hev₁ _ => ?_
    refine (yields_expr scope target (h.evolves hev₁)
      (htarget.mono hev₁.knowledge.grows.shapes)).bind id fun t s₂ hev₂ ht => ?_
    have hev₁₂ := hev₁.trans hev₂
    have h₂ := h.evolves hev₁₂
    refine (yields_field? h₂.sound (ht.has h₂.typing) key).seq fun result s₃ hev₃ hfield => ?_
    have ht₃ := ht.mono (h₂.grows hev₃)
    have hev₁₃ := hev₁₂.trans hev₃
    have h₃ := h.evolves hev₁₃
    cases result with
    | some f =>
      obtain ⟨hconstant, l, hl, hin⟩ := hfield f rfl
      refine (yields_expr scope value h₃ (hvalue.mono hev₁₃.knowledge.grows.shapes)).bind
        (fun hwf => ⟨hwf.2, trivial⟩) fun v s₄ hev₄ hv => ?_
      have hg := h₃.grows hev₄
      exact .pure (.refl hev₄.knowledge.sound)
        (.setField (ht₃.mono hg) hconstant (hg.compiled hl) hin hv)
    | none =>
      refine (yields_expr scope key h₃ (hkey.mono hev₁₃.knowledge.grows.shapes)).bind id
        fun k s₄ hev₄ hk => ?_
      have hev₁₄ := hev₁₃.trans hev₄
      have h₄ := h.evolves hev₁₄
      refine (yields_expr scope value h₄ (hvalue.mono hev₁₄.knowledge.grows.shapes)).bind
        (fun hwf => ⟨hwf, trivial⟩) fun v s₅ hev₅ hv => ?_
      exact .pure (.refl hev₅.knowledge.sound) (.setIndex (ht₃.mono (h₃.grows (hev₄.trans hev₅)))
        (hk.mono (h₄.grows hev₅)) hv)
  | .expr e, s, h, hscope => by
    rw [stmt]
    refine (yields_announce h _).seq fun _ s₁ hev₁ _ => ?_
    exact yields_discard (h.evolves hev₁) e
      ((hscope e (List.mem_cons_self ..)).mono hev₁.knowledge.grows.shapes) inLoop
  | .branch cond thenBlock elseBlock, s, h, hscope => by
    obtain ⟨hcond, hthen, helse⟩ := hscope
    rw [stmt]
    refine (yields_announce h _).seq fun _ s₁ hev₁ _ => ?_
    refine (yields_expr scope cond (h.evolves hev₁)
      ((hcond cond (List.mem_cons_self ..)).mono hev₁.knowledge.grows.shapes)).bind id
      fun c s₂ hev₂ hc => ?_
    have hev₁₂ := hev₁.trans hev₂
    have h₂ := h.evolves hev₁₂
    refine (yields_block scope inLoop thenBlock h₂
      (hthen.mono fun _ ht => ht.mono hev₁₂.knowledge.grows.shapes)).bind id
      fun ts s₃ hev₃ hts => ?_
    have hev₁₃ := hev₁₂.trans hev₃
    have h₃ := h.evolves hev₁₃
    refine (yields_block scope inLoop elseBlock h₃
      (helse.mono fun _ ht => ht.mono hev₁₃.knowledge.grows.shapes)).bind
      (fun hwf => ⟨hwf, trivial⟩) fun es s₄ hev₄ hes => ?_
    exact .pure (.refl hev₄.knowledge.sound) (.branch (hc.mono (h₂.grows (hev₃.trans hev₄)))
      (hts.mono (h₃.grows hev₄)) hes)
  | .whileLoop cond body, s, h, hscope => by
    obtain ⟨hcond, hbody⟩ := hscope
    rw [stmt]
    refine (yields_announce h _).seq fun _ s₁ hev₁ _ => ?_
    refine (yields_expr scope cond (h.evolves hev₁)
      ((hcond cond (List.mem_cons_self ..)).mono hev₁.knowledge.grows.shapes)).bind id
      fun c s₂ hev₂ hc => ?_
    have hev₁₂ := hev₁.trans hev₂
    have h₂ := h.evolves hev₁₂
    refine (yields_block scope true body h₂
      (hbody.mono fun _ ht => ht.mono hev₁₂.knowledge.grows.shapes)).bind
      (fun hwf => ⟨hwf, trivial⟩) fun bs s₃ hev₃ hbs => ?_
    exact .pure (.refl hev₃.knowledge.sound) (.whileLoop (hc.mono (h₂.grows hev₃)) hbs)
  | .forLoop slot start limit step body, s, h, hscope => by
    obtain ⟨hoperands, hbody⟩ := hscope
    have hstart := hoperands start (by simp [Stmt.operands])
    have hlimit := hoperands limit (by simp [Stmt.operands])
    rw [stmt]
    refine (yields_announce h _).seq fun _ s₁ hev₁ _ => ?_
    refine (yields_checkSlot (h.evolves hev₁) slot).bind id fun _ s₂ hev₂ hslot => ?_
    have hev₁₂ := hev₁.trans hev₂
    refine (yields_expr scope start (h.evolves hev₁₂)
      (hstart.mono hev₁₂.knowledge.grows.shapes)).bind id fun st s₃ hev₃ hst => ?_
    have hev₁₃ := hev₁₂.trans hev₃
    have h₃ := h.evolves hev₁₃
    refine (yields_expr scope limit h₃ (hlimit.mono hev₁₃.knowledge.grows.shapes)).bind id
      fun l s₄ hev₄ hl => ?_
    have hev₁₄ := hev₁₃.trans hev₄
    have h₄ := h.evolves hev₁₄
    refine (yields_step h₄ step fun e he => (hoperands e (by simp [Stmt.operands, he])).mono
      hev₁₄.knowledge.grows.shapes).bind id fun d s₅ hev₅ hd => ?_
    have hev₁₅ := hev₁₄.trans hev₅
    have h₅ := h.evolves hev₁₅
    refine (yields_block scope true body h₅
      (hbody.mono fun _ ht => ht.mono hev₁₅.knowledge.grows.shapes)).bind
      (fun hwf => ⟨hwf, trivial⟩) fun bs s₆ hev₆ hbs => ?_
    have hev₅₆ := hev₅.trans hev₆
    exact .pure (.refl hev₆.knowledge.sound) (.forLoop (σ := s₆.setting scope) hslot
      (hst.mono (h₃.grows (hev₄.trans hev₅₆))) (hl.mono (h₄.grows hev₅₆))
      (hd.mono (h₅.grows hev₆)) hbs)
  | .ret values, s, h, hscope => by
    rw [stmt]
    refine (yields_announce h _).seq fun _ s₁ hev₁ _ => ?_
    exact yields_ret (h.evolves hev₁) values ((Expr.allScoped_of_forall hscope).mono
      hev₁.knowledge.grows.shapes) inLoop
  | .breakLoop, s, h, _ => by
    rw [stmt]
    refine (yields_announce h _).seq fun _ s₁ hev₁ _ => ?_
    cases inLoop with
    | true => exact .pure (.refl hev₁.knowledge.sound) .breakLoop
    | false => exact .throw (.refl hev₁.knowledge.sound) fun hwf => by cases hwf

/-- Emission of a block gives code that belongs to it. -/
theorem yields_block (scope : Scope) (inLoop : Bool) : ∀ (block : List Stmt) {s : Emitter},
    scope.Ready s → Stmt.BlockEvery (Stmt.Scoped scope.program s.knowledge.shapes) block →
    Yields scope.program s (Emit.block scope inLoop block)
      (Stmt.BlockWellFormed scope.program scope.proto inLoop block)
      fun cs s' => EmitsBlock (s'.setting scope) inLoop block cs
  | [], s, h, _ => by
    rw [Emit.block]
    exact .pure (.refl h.sound) .nil
  | t :: rest, s, h, hscope => by
    obtain ⟨ht, hrest⟩ := hscope
    rw [Emit.block]
    refine (yields_stmt scope inLoop t h ht).bind id fun c s₁ hev₁ hc => ?_
    have h₁ := h.evolves hev₁
    refine (yields_block scope inLoop rest h₁
      (hrest.mono fun _ hr => hr.mono hev₁.knowledge.grows.shapes)).bind
      (fun hwf => ⟨hwf, trivial⟩) fun cs s₂ hev₂ hcs => ?_
    exact .pure (.refl hev₂.knowledge.sound) (.cons (hc.mono (h₁.grows hev₂)) hcs)

end

end Emit
end AdaptiveScript
