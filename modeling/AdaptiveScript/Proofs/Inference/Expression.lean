import AdaptiveScript.Proofs.Inference.TypeSystem
import AdaptiveScript.Proofs.Shape.Count

/-!
# The types that inference gives expressions

`gives_infer` says that inference gives an expression one of the types that the rules of
`HasType` allow, under the typing that the analysis stands for at that point.

Inference learns on the way: it records keys in shapes, merges shapes and remembers return
types.  `Learn.Gives` is the judgement for such computations.  It keeps five things
apart: what is known stays true and grows, nothing is remembered for prototypes beyond a
bound, shapes are made by merging only, what was found once is found again, and a
postcondition.  The bound is there because return types of a prototype are found with the
help of those of earlier prototypes; that nothing else is touched is why an entry, once
made, is never hidden by a later one.

A type that was inferred is inferred again at any later time before which no shapes were
merged (`Learn.Recalls`).  The number of shapes tells whether there was a merge.  Keys that
were recorded and return types that were found in between do no harm: the first are never
read, and the second were found from the same shapes.
-/

namespace AdaptiveScript

/-! ## Computations that learn -/

namespace Knowledge

/-- The knowledge after an operation that merged no shapes and found no return types. -/
structure Rests (program : Program) (before after : Knowledge) : Prop where
  evolves : before.Evolves program after
  size : after.shapes.states.size = before.shapes.states.size
  returns : after.returns = before.returns

namespace Rests

variable {program : Program}

theorem refl {k : Knowledge} (h : k.Sound program) : k.Rests program k :=
  ⟨.refl h, rfl, rfl⟩

theorem trans {a b c : Knowledge} (hab : a.Rests program b) (hbc : b.Rests program c) :
    a.Rests program c :=
  ⟨hab.evolves.trans hbc.evolves, hbc.size.trans hab.size, hbc.returns.trans hab.returns⟩

end Rests
end Knowledge

namespace Learn

/-- A computation that was run in `k` gives the same result at any later time, and then
learns nothing new, unless shapes were merged since. -/
def Recalls {α : Type} (program : Program) (x : Learn α) (k : Knowledge) : Prop :=
  ∀ later : Knowledge, (x.run k).2.Evolves program later →
    later.shapes.states.size = k.shapes.states.size →
      (x.run later).1 = (x.run k).1 ∧ later.Rests program (x.run later).2

/-- A computation that learns, started in `k`: what is known stays true and grows, the
return types of prototypes numbered above `bound` are left alone, shapes are made by merging
only, the computation can be repeated, and the result and the knowledge reached are as `Q`
says. -/
structure Gives {α : Type} (program : Program) (bound : Nat) (x : Learn α) (k : Knowledge)
    (Q : α → Knowledge → Prop) : Prop where
  evolves : k.Evolves program (x.run k).2
  untouched : ∀ {id : Nat}, bound < id → (x.run k).2.returns.lookup id = k.returns.lookup id
  conserves : k.shapes.Conserves (x.run k).2.shapes
  recalls : Recalls program x k
  post : Q (x.run k).1 (x.run k).2

namespace Gives

variable {α β : Type} {program : Program} {bound : Nat} {k : Knowledge}

theorem pure {a : α} {Q : α → Knowledge → Prop} (h : k.Sound program) (hq : Q a k) :
    Gives program bound (pure a) k Q :=
  ⟨.refl h, fun _ => rfl, .refl _, fun _ hev _ => ⟨rfl, .refl hev.sound⟩, hq⟩

theorem bind {x : Learn α} {f : α → Learn β} {Q : α → Knowledge → Prop}
    {R : β → Knowledge → Prop} (hx : Gives program bound x k Q)
    (hf : ∀ a k', k.Evolves program k' → Q a k' → Gives program bound (f a) k' R) :
    Gives program bound (x >>= f) k R := by
  have hrest := hf (x.run k).1 (x.run k).2 hx.evolves hx.post
  refine ⟨hx.evolves.trans hrest.evolves,
    fun hid => (hrest.untouched hid).trans (hx.untouched hid),
    hx.conserves.trans hrest.conserves, fun later hev hsize => ?_, hrest.post⟩
  -- if the number of shapes has not changed by then, it did not change in between
  obtain ⟨hsame, hquiet⟩ := hx.recalls later (hrest.evolves.trans hev) hsize
  have hmid := hx.evolves.grows.shapes.size_le
  have hlate := (hrest.evolves.trans hev).grows.shapes.size_le
  obtain ⟨hsame', hquiet'⟩ := hrest.recalls (x.run later).2 (hev.trans hquiet.evolves)
    (by rw [hquiet.size]; omega)
  rw [← hsame] at hsame' hquiet'
  exact ⟨hsame'.trans (by rw [hsame]; rfl), hquiet.trans hquiet'⟩

theorem mono {x : Learn α} {Q R : α → Knowledge → Prop} (hx : Gives program bound x k Q)
    (h : ∀ a k', k.Evolves program k' → Q a k' → R a k') : Gives program bound x k R :=
  ⟨hx.evolves, hx.untouched, hx.conserves, hx.recalls, h _ _ hx.evolves hx.post⟩

/-- A computation that changes shapes alone. -/
theorem of_shapes {x : Learn α} {Q : α → Knowledge → Prop} (h : k.Sound program)
    (hshapes : k.shapes.Evolves (x.run k).2.shapes)
    (hreturns : (x.run k).2.returns = k.returns)
    (hconserves : k.shapes.Conserves (x.run k).2.shapes) (hrecalls : Recalls program x k)
    (hpost : Q (x.run k).1 (x.run k).2) : Gives program bound x k Q :=
  ⟨.of_shapes h hshapes hreturns, fun _ => by rw [hreturns], hconserves, hrecalls, hpost⟩

end Gives

variable {program : Program} {bound : Nat} {k : Knowledge}

/-- A computation without a result can be repeated if it never merges shapes. -/
theorem recalls_of_rests {x : Learn Unit}
    (h : ∀ k : Knowledge, k.Sound program → k.Rests program (x.run k).2) : Recalls program x k :=
  fun later hev _ => ⟨rfl, h later hev.sound⟩

theorem gives_note (h : k.Sound program) (event : Event) :
    Gives program bound (note event) k fun _ after => after.shapes = k.shapes := by
  refine .of_shapes h (.refl h.forest) rfl (.refl _) (recalls_of_rests fun k h => ?_) rfl
  exact ⟨.of_shapes h (.refl h.forest) rfl, rfl, rfl⟩

theorem gives_amend (h : k.Sound program) (shape : ShapeId) (key : String) (type : Ty) :
    Gives program bound (amend shape key type) k fun _ _ => True := by
  refine .of_shapes h (Shapes.evolves_amend h.forest shape key type) rfl
    (Shapes.conserves_amend shape key type) (recalls_of_rests fun k h => ?_) trivial
  exact ⟨.of_shapes h (Shapes.evolves_amend h.forest shape key type) rfl,
    Shapes.size_amend shape key type, rfl⟩

theorem gives_amendUnknown (h : k.Sound program) (shape : ShapeId) :
    Gives program bound (amendUnknown shape) k fun _ _ => True := by
  refine .of_shapes h (Shapes.evolves_amendUnknown h.forest shape) rfl
    (Shapes.conserves_amendUnknown shape) (recalls_of_rests fun k h => ?_) trivial
  exact ⟨.of_shapes h (Shapes.evolves_amendUnknown h.forest shape) rfl,
    Shapes.size_amendUnknown shape, rfl⟩

theorem gives_tableType (h : k.Sound program) (shape : ShapeId) :
    Gives program bound (tableType shape) k fun type after =>
      type = .tableOf (after.shapes.resolve shape) := by
  refine .of_shapes h (.refl h.forest) rfl (.refl _) (fun later hev hsize => ?_) rfl
  have hresolve := hev.grows.shapes.resolve_eq_of_size hev.sound.forest hsize shape
  exact ⟨congrArg Ty.tableOf hresolve, .refl hev.sound⟩

/-- A merge that made no shape comes to the same later on. -/
theorem recalls_mergeShapes (hf : k.shapes.Forest) (a b : ShapeId) :
    Recalls program (mergeShapes a b) k := by
  intro later hev hsize
  have hforest := hev.sound.forest
  have hg := hev.grows.shapes
  rw [(run_mergeShapes k a b).2.1] at hg
  rcases Shapes.merge_cases k.shapes a b with ⟨hsame, h⟩ | ⟨hne, hfrozen, h⟩ | ⟨-, -, -, h⟩
  · rw [h] at hg
    have hresolve := hg.resolve_eq_of_size hforest hsize
    rcases Shapes.merge_cases later.shapes a b with ⟨-, h'⟩ | ⟨hne, -⟩ | ⟨hne, -⟩
    · rw [run_mergeShapes_of_same h, run_mergeShapes_of_same h', hresolve]
      exact ⟨rfl, .refl hev.sound⟩
    · exact absurd (by rw [hresolve, hresolve, hsame]) hne
    · exact absurd (by rw [hresolve, hresolve, hsame]) hne
  · rw [h] at hg
    have hresolve := hg.resolve_eq_of_size hforest hsize
    have hlate : (later.shapes.isFrozen a || later.shapes.isFrozen b) = true := by
      rcases Bool.or_eq_true .. ▸ hfrozen with ha | hb
      · rw [hg.isFrozen hf hforest ha, Bool.true_or]
      · rw [hg.isFrozen hf hforest hb, Bool.or_true]
    rcases Shapes.merge_cases later.shapes a b with ⟨hsame, -⟩ | ⟨-, -, h'⟩ | ⟨-, ha, hb, -⟩
    · rw [hresolve, hresolve] at hsame
      exact absurd hsame hne
    · rw [run_mergeShapes_of_refused h, run_mergeShapes_of_refused h']
      exact ⟨rfl, .refl hev.sound⟩
    · rw [ha, hb] at hlate
      cases hlate
  · -- a fresh shape would show in the number of shapes
    rw [h] at hg
    have hle := hg.size_le
    rw [Shapes.size_setState, Shapes.size_setState, Shapes.size_add] at hle
    omega

/-- Merging two shapes; a result is the representative of both. -/
theorem gives_mergeShapes (h : k.Sound program) {a b : ShapeId} (ha : k.shapes.Has a)
    (hb : k.shapes.Has b) :
    Gives program bound (mergeShapes a b) k fun result after => ∀ rep, result = some rep →
      after.shapes.resolve a = rep ∧ after.shapes.resolve b = rep := by
  obtain ⟨hev, hrep⟩ := Shapes.evolves_merge h.forest ha hb
  obtain ⟨hresult, hshapes, hreturns⟩ := run_mergeShapes k a b
  refine .of_shapes h (hshapes ▸ hev) hreturns ?_ (recalls_mergeShapes h.forest a b) ?_
  · rw [hshapes]
    exact Shapes.conserves_merge h.forest ha hb
  · rw [hshapes, hresult]
    exact hrep

end Learn

namespace Inference

open Learn (Gives)

/-! ## Expressions -/

/-- The typing that an analysis stands for. -/
def typing (ctx : Inference) : Typing :=
  ⟨ctx.varType, ctx.upvalueType⟩

theorem respects_typing {ctx : Inference} {proto : Prototype} (h : ctx.proto = proto) :
    ctx.typing.Respects proto := by
  intro slot hcaptured
  show ctx.varType slot = .unknown
  rw [varType, h, if_pos hcaptured]

/-- A way to find return types gives those that are remembered, or none. -/
def ReturnsOf.Sound (program : Program) (bound : Nat) (returnsOf : ReturnsOf) : Prop :=
  ∀ (ref : PrototypeRef) (k : Knowledge), k.Sound program →
    Gives program bound (returnsOf ref) k fun types after =>
      after.returns.lookup ref.id = some types ∨ types = [.unknown]

theorem headD_mem_or {types : List Ty} : types.headD .nil = .nil ∨ types.headD .nil ∈ types := by
  cases types with
  | nil => exact .inl rfl
  | cons t ts => exact .inr (List.mem_cons_self ..)

/-- The first of the return types that are remembered names a shape that exists. -/
theorem has_headD {program : Program} {k : Knowledge} (h : k.Sound program) {id : Nat}
    {types : List Ty} (hreturns : k.returns.lookup id = some types) :
    (types.headD .nil).Has k.shapes := by
  rcases headD_mem_or with hnil | hmem
  · rw [hnil]
    trivial
  · exact (h.returns hreturns).has _ hmem

theorem has_binaryType (shapes : Shapes) (op : BinOp) (l r : Ty) :
    (Ty.binaryType op l r).Has shapes := by
  cases op <;> simp only [Ty.binaryType] <;> (repeat' split) <;> trivial

theorem has_unaryType {shapes : Shapes} (op : UnOp) {t : Ty} (h : t.Has shapes) :
    (Ty.unaryType op t).Has shapes := by
  cases op with
  | neg =>
    simp only [Ty.unaryType]
    split
    · exact h
    · trivial
  | not => trivial
  | len => trivial

theorem has_join {shapes : Shapes} {l r : Ty} (h : l.Has shapes) : (l.join r).Has shapes := by
  unfold Ty.join
  split
  · exact h
  · trivial

theorem has_loopType (shapes : Shapes) (s l d : Ty) : (Ty.loopType s l d).Has shapes := by
  unfold Ty.loopType
  (repeat' split) <;> trivial

section

variable {program : Program} {bound : Nat} {returnsOf : ReturnsOf}

/-- The types that a call through a value of a given type returns. -/
theorem gives_callTypes (hret : returnsOf.Sound program bound) {k : Knowledge}
    (h : k.Sound program) (callee : Ty) :
    Gives program bound (callTypes returnsOf callee) k fun result after =>
      ∀ types, result = some types → types = [.unknown] ∨
        ∃ ref, callee = .function ref ∧ after.returns.lookup ref.id = some types := by
  unfold callTypes
  cases callee with
  | function ref =>
    refine (hret ref k h).bind fun types k' hev htypes => .pure hev.sound fun types' heq => ?_
    cases heq
    rcases htypes with hknown | hunknown
    · exact .inr ⟨ref, rfl, hknown⟩
    · exact .inl hunknown
  | _ => exact .pure h fun types heq => by cases heq

/-- The type of a call as an expression. -/
theorem gives_callType (hret : returnsOf.Sound program bound) {k : Knowledge}
    (h : k.Sound program) {Γ : Typing} {callee : Expr} {type : Ty}
    (hcallee : HasType k Γ callee type) (args : List Expr) :
    Gives program bound (callType returnsOf type) k fun result after =>
      HasType after Γ (.call callee args) result ∧ result.Has after.shapes := by
  refine (gives_callTypes hret h type).bind fun result k' hev hresult => .pure hev.sound ?_
  cases result with
  | none => exact ⟨.any _, trivial⟩
  | some types =>
    rcases hresult types rfl with hunknown | ⟨ref, htype, hreturns⟩
    · rw [hunknown]
      exact ⟨.any _, trivial⟩
    · rw [htype] at hcallee
      exact ⟨.call (hcallee.mono hev.grows h.forest hev.sound.forest) hreturns,
        has_headD hev.sound hreturns⟩

mutual

/-- The type that inference gives an expression is one of its types. -/
theorem gives_infer (hret : returnsOf.Sound program bound) (ctx : Inference) :
    ∀ (e : Expr) {k : Knowledge}, k.Sound program → ctx.typing.Has k.shapes →
      e.Scoped program k.shapes →
      Gives program bound (infer returnsOf ctx e) k fun type after =>
        HasType after ctx.typing e type ∧ type.Has after.shapes
  | .literal l, k, h, _, _ => by
    rw [infer]
    exact .pure h ⟨.literal l, by cases l <;> trivial⟩
  | .slot index, k, h, hctx, _ => by
    rw [infer]
    exact .pure h ⟨.slot (Γ := ctx.typing) index, hctx.slot index⟩
  | .upvalue index, k, h, hctx, _ => by
    rw [infer]
    exact .pure h ⟨.upvalue (Γ := ctx.typing) index, hctx.upvalue index⟩
  | .global name, k, h, _, _ => by
    rw [infer]
    exact .pure h ⟨.any _, trivial⟩
  | .binary op left right, k, h, hctx, hscope => by
    obtain ⟨hl, hr⟩ := Expr.scoped_binary.1 hscope
    rw [infer]
    refine (gives_infer hret ctx left h hctx hl).bind fun l k₁ hev₁ ⟨htl, _⟩ => ?_
    refine (gives_infer hret ctx right hev₁.sound (hctx.mono hev₁.grows.shapes)
      (hr.mono hev₁.grows.shapes)).bind fun r k₂ hev₂ ⟨htr, _⟩ => .pure hev₂.sound ?_
    exact ⟨.binary (htl.mono hev₂.grows hev₁.sound.forest hev₂.sound.forest) htr,
      has_binaryType _ op l r⟩
  | .logical op left right, k, h, hctx, hscope => by
    obtain ⟨hl, hr⟩ := Expr.scoped_logical.1 hscope
    rw [infer]
    refine (gives_infer hret ctx left h hctx hl).bind fun l k₁ hev₁ ⟨htl, hasl⟩ => ?_
    refine (gives_infer hret ctx right hev₁.sound (hctx.mono hev₁.grows.shapes)
      (hr.mono hev₁.grows.shapes)).bind fun r k₂ hev₂ ⟨htr, _⟩ => .pure hev₂.sound ?_
    exact ⟨.logical (htl.mono hev₂.grows hev₁.sound.forest hev₂.sound.forest) htr,
      has_join (hasl.mono hev₂.grows.shapes)⟩
  | .unary op operand, k, h, hctx, hscope => by
    rw [infer]
    refine (gives_infer hret ctx operand h hctx (Expr.scoped_unary.1 hscope)).bind fun t k₁ hev₁ ⟨ht, hast⟩ =>
      .pure hev₁.sound ⟨.unary ht, has_unaryType op hast⟩
  | .index target key, k, h, hctx, hscope => by
    obtain ⟨ht, hk⟩ := Expr.scoped_index.1 hscope
    rw [infer]
    refine (gives_infer hret ctx target h hctx ht).bind fun _ k₁ hev₁ _ => ?_
    exact (gives_infer hret ctx key hev₁.sound (hctx.mono hev₁.grows.shapes)
      (hk.mono hev₁.grows.shapes)).bind fun _ k₂ hev₂ _ => .pure hev₂.sound ⟨.any _, trivial⟩
  | .call callee args, k, h, hctx, hscope => by
    obtain ⟨hc, ha⟩ := Expr.scoped_call.1 hscope
    rw [infer]
    refine (gives_infer hret ctx callee h hctx hc).bind fun type k₁ hev₁ ⟨htype, _⟩ => ?_
    refine (gives_inferAll hret ctx args hev₁.sound (hctx.mono hev₁.grows.shapes)
      (ha.mono hev₁.grows.shapes)).bind fun _ k₂ hev₂ _ => ?_
    exact gives_callType hret hev₂.sound
      (htype.mono hev₂.grows hev₁.sound.forest hev₂.sound.forest) args
  | .function ref captures, k, h, _, _ => by
    rw [infer]
    exact .pure h ⟨.function, trivial⟩
  | .table shape entries, k, h, hctx, hscope => by
    obtain ⟨hs, he⟩ := Expr.scoped_table.1 hscope
    rw [infer]
    refine (gives_inferEntries hret ctx shape entries h hctx he).bind fun _ k₁ hev₁ _ => ?_
    refine (Learn.gives_tableType hev₁.sound shape).mono fun type k₂ hev₂ htype => ?_
    rw [htype]
    have hhas : k₂.shapes.Has shape := hev₂.grows.shapes.has (hev₁.grows.shapes.has hs)
    have hresolved := hev₂.sound.forest.has_resolve hhas
    exact ⟨.table (hev₂.sound.forest.resolve_resolve shape) hresolved, hresolved⟩

/-- The types that inference gives some expressions. -/
theorem gives_inferAll (hret : returnsOf.Sound program bound) (ctx : Inference) :
    ∀ (es : List Expr) {k : Knowledge}, k.Sound program → ctx.typing.Has k.shapes →
      Expr.AllScoped program k.shapes es →
      Gives program bound (inferAll returnsOf ctx es) k fun types after =>
        HasTypes after ctx.typing es types ∧ ∀ type ∈ types, type.Has after.shapes
  | [], k, h, _, _ => by
    rw [inferAll]
    exact .pure h ⟨.nil, fun _ hmem => by cases hmem⟩
  | e :: es, k, h, hctx, hscope => by
    obtain ⟨he, hes⟩ := Expr.allScoped_cons.1 hscope
    rw [inferAll]
    refine (gives_infer hret ctx e h hctx he).bind fun t k₁ hev₁ ⟨ht, hast⟩ => ?_
    refine (gives_inferAll hret ctx es hev₁.sound (hctx.mono hev₁.grows.shapes)
      (hes.mono hev₁.grows.shapes)).bind fun ts k₂ hev₂ ⟨hts, hasts⟩ =>
        .pure hev₂.sound ⟨.cons (ht.mono hev₂.grows hev₁.sound.forest hev₂.sound.forest) hts, ?_⟩
    intro type hmem
    rcases List.mem_cons.1 hmem with rfl | hmem
    · exact hast.mono hev₂.grows.shapes
    · exact hasts type hmem

/-- Recording the entries of a table constructor. -/
theorem gives_inferEntries (hret : returnsOf.Sound program bound) (ctx : Inference)
    (shape : ShapeId) :
    ∀ (entries : List Entry) {k : Knowledge}, k.Sound program → ctx.typing.Has k.shapes →
      Expr.EntriesScoped program k.shapes entries →
      Gives program bound (inferEntries returnsOf ctx shape entries) k fun _ _ => True
  | [], k, h, _, _ => by
    rw [inferEntries]
    exact .pure h trivial
  | .named name value :: rest, k, h, hctx, hscope => by
    obtain ⟨hv, hrest⟩ := Expr.entriesScoped_named.1 hscope
    rw [inferEntries]
    refine (gives_infer hret ctx value h hctx hv).bind fun t k₁ hev₁ _ => ?_
    refine (Learn.gives_amend hev₁.sound shape name t).bind fun _ k₂ hev₂ _ => ?_
    have hev := hev₁.trans hev₂
    exact gives_inferEntries hret ctx shape rest hev.sound (hctx.mono hev.grows.shapes)
      (hrest.mono hev.grows.shapes)
  | .keyed key value :: rest, k, h, hctx, hscope => by
    obtain ⟨hk, hv, hrest⟩ := Expr.entriesScoped_keyed.1 hscope
    rw [inferEntries]
    -- a constant key is recorded, any other key makes the shape spill
    cases key.constantKey? with
    | some name =>
      refine (gives_infer hret ctx value h hctx hv).bind fun t k₁ hev₁ _ => ?_
      refine (Learn.gives_amend hev₁.sound shape name t).bind fun _ k₂ hev₂ _ => ?_
      have hev := hev₁.trans hev₂
      exact gives_inferEntries hret ctx shape rest hev.sound (hctx.mono hev.grows.shapes)
        (hrest.mono hev.grows.shapes)
    | none =>
      refine (gives_infer hret ctx key h hctx hk).bind fun _ k₁ hev₁ _ => ?_
      refine (gives_infer hret ctx value hev₁.sound (hctx.mono hev₁.grows.shapes)
        (hv.mono hev₁.grows.shapes)).bind fun _ k₂ hev₂ _ => ?_
      refine (Learn.gives_amendUnknown hev₂.sound shape).bind fun _ k₃ hev₃ _ => ?_
      have hev := (hev₁.trans hev₂).trans hev₃
      exact gives_inferEntries hret ctx shape rest hev.sound (hctx.mono hev.grows.shapes)
        (hrest.mono hev.grows.shapes)
  | .positional value :: rest, k, h, hctx, hscope => by
    obtain ⟨hv, hrest⟩ := Expr.entriesScoped_positional.1 hscope
    rw [inferEntries]
    refine (gives_infer hret ctx value h hctx hv).bind fun _ k₁ hev₁ _ => ?_
    refine (Learn.gives_amendUnknown hev₁.sound shape).bind fun _ k₂ hev₂ _ => ?_
    have hev := hev₁.trans hev₂
    exact gives_inferEntries hret ctx shape rest hev.sound (hctx.mono hev.grows.shapes)
      (hrest.mono hev.grows.shapes)

end

end

end Inference
end AdaptiveScript
