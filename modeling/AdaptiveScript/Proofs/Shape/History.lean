import AdaptiveScript.Proofs.Shape.Forest

/-!
# Shapes over time

Five things happen to shapes: they are made, amended with a key, amended with an unknown
key, merged and compiled.  A history is a list of such operations, each applied to shapes
that exist by then.

`Shapes.Advances` is what one operation does, whichever it is: the shapes evolve as a
forest (`Shapes.Evolves`), no key is listed twice, and the keys of every shape and its mark
for keys outside the layout only grow.  The rule is transitive, so whole histories obey it
(`ShapeOperation.advances_run`).

* `shapes_of_history`: what is true of the shapes at the end of a history, and what the rest of a
  longer history does to them.
-/

namespace AdaptiveScript

/-! ## Key lists -/

theorem map_fst_amendKeys (key : String) (type : Ty) (keys : List (String × Ty)) :
    (amendKeys key type keys).map Prod.fst =
      if key ∈ keys.map Prod.fst then keys.map Prod.fst else keys.map Prod.fst ++ [key] := by
  induction keys with
  | nil => rfl
  | cons entry rest ih =>
    obtain ⟨k, t⟩ := entry
    by_cases hk : k = key
    · simp [amendKeys, hk]
    · have hne : key ≠ k := fun h => hk h.symm
      rw [amendKeys, if_neg hk, List.map_cons, ih, List.map_cons]
      by_cases hmem : key ∈ rest.map Prod.fst
      · rw [if_pos hmem, if_pos (List.mem_cons_of_mem k hmem)]
      · have hnot : ¬ key ∈ k :: rest.map Prod.fst := by
          rw [List.mem_cons, not_or]
          exact ⟨hne, hmem⟩
        rw [if_neg hmem, if_neg hnot, List.cons_append]

/-- A key joins the list; those that are there stay. -/
theorem mem_amendKeys {key other : String} {type : Ty} {keys : List (String × Ty)}
    (h : other ∈ keys.map Prod.fst) : other ∈ (amendKeys key type keys).map Prod.fst := by
  rw [map_fst_amendKeys]
  split
  · exact h
  · exact List.mem_append_left _ h

theorem mem_amendKeys_self (key : String) (type : Ty) (keys : List (String × Ty)) :
    key ∈ (amendKeys key type keys).map Prod.fst := by
  rw [map_fst_amendKeys]
  split
  · assumption
  · simp

theorem nodup_amendKeys {key : String} {type : Ty} {keys : List (String × Ty)}
    (h : (keys.map Prod.fst).Nodup) : ((amendKeys key type keys).map Prod.fst).Nodup := by
  rw [map_fst_amendKeys]
  split
  · exact h
  · next hnew =>
    refine List.nodup_append.mpr ⟨h, by simp, fun k hk other hother => ?_⟩
    rw [List.mem_singleton.mp hother]
    exact fun heq => hnew (heq ▸ hk)

theorem mem_unionKeys_left {key : String} {first : List (String × Ty)}
    (h : key ∈ first.map Prod.fst) (second : List (String × Ty)) :
    key ∈ (unionKeys first second).map Prod.fst := by
  induction second generalizing first with
  | nil => exact h
  | cons entry rest ih => exact ih (mem_amendKeys h)

theorem mem_unionKeys_right {key : String} (first : List (String × Ty))
    {second : List (String × Ty)} (h : key ∈ second.map Prod.fst) :
    key ∈ (unionKeys first second).map Prod.fst := by
  induction second generalizing first with
  | nil => cases h
  | cons entry rest ih =>
    rcases List.mem_cons.mp h with rfl | hrest
    · exact mem_unionKeys_left (mem_amendKeys_self entry.1 entry.2 first) rest
    · exact ih _ hrest

theorem nodup_unionKeys {first : List (String × Ty)} (h : (first.map Prod.fst).Nodup)
    (second : List (String × Ty)) : ((unionKeys first second).map Prod.fst).Nodup := by
  induction second generalizing first with
  | nil => exact h
  | cons entry rest ih => exact ih (nodup_amendKeys h)

namespace Shapes

/-! ## What every operation does -/

/-- No shape lists a key twice. -/
def Distinct (shapes : Shapes) : Prop :=
  ∀ id : Nat, ((shapes.state id).keys.map Prod.fst).Nodup

/-- The keys of every shape and its mark for other keys only grow. -/
structure Widens (before after : Shapes) : Prop where
  keys : ∀ {id : Nat} {key : String}, key ∈ before.keys id → key ∈ after.keys id
  spills : ∀ {id : Nat}, before.spills id = true → after.spills id = true

/-- What an operation does to the shapes. -/
structure Advances (before after : Shapes) : Prop where
  evolves : before.Evolves after
  distinct : before.Distinct → after.Distinct
  widens : before.Widens after

namespace Advances

theorem refl {shapes : Shapes} (hf : shapes.Forest) : shapes.Advances shapes :=
  ⟨.refl hf, id, ⟨id, id⟩⟩

theorem trans {a b c : Shapes} (hab : a.Advances b) (hbc : b.Advances c) : a.Advances c :=
  ⟨hab.evolves.trans hbc.evolves, fun h => hbc.distinct (hab.distinct h),
    fun h => hbc.widens.keys (hab.widens.keys h), fun h => hbc.widens.spills (hab.widens.spills h)⟩

end Advances

variable {shapes : Shapes}

theorem follow_congr {other : Shapes}
    (h : ∀ id : Nat, (other.state id).forward = (shapes.state id).forward) :
    ∀ (bound id : Nat), other.follow bound id = shapes.follow bound id := by
  intro bound
  induction bound with
  | zero => exact fun _ => rfl
  | succ bound ih =>
    intro id
    rw [follow, follow, h id]
    cases (shapes.state id).forward with
    | none => rfl
    | some next => exact ih next

/-- Representatives stay if no forward changes. -/
theorem resolve_setState {id : Nat} {s : ShapeState}
    (hforward : s.forward = (shapes.state id).forward) (other : Nat) :
    (shapes.setState id s).resolve other = shapes.resolve other := by
  unfold resolve
  rw [size_setState, follow_congr (forward_setState hforward)]

theorem resolve_amend (c : Nat) (key : String) (type : Ty) (id : Nat) :
    (shapes.amend c key type).resolve id = shapes.resolve id := by
  unfold amend
  dsimp only
  split
  · rfl
  · exact resolve_setState (by rfl) id

theorem resolve_amendUnknown (c id : Nat) :
    (shapes.amendUnknown c).resolve id = shapes.resolve id := by
  unfold amendUnknown
  dsimp only
  split
  · rfl
  · exact resolve_setState (by rfl) id

theorem resolve_freeze (c id : Nat) : (shapes.freeze c).resolve id = shapes.resolve id :=
  resolve_setState (by rfl) id

/-- Learning more about a shape that stays where it is. -/
theorem advances_setState {id : Nat} {s : ShapeState}
    (hev : shapes.Evolves (shapes.setState id s))
    (hforward : s.forward = (shapes.state id).forward)
    (hnodup : ((shapes.state id).keys.map Prod.fst).Nodup → (s.keys.map Prod.fst).Nodup)
    (hkeys : ∀ key ∈ (shapes.state id).keys.map Prod.fst, key ∈ s.keys.map Prod.fst)
    (hspills : (shapes.state id).spills = true → s.spills = true) :
    shapes.Advances (shapes.setState id s) := by
  refine ⟨hev, fun hdistinct other => ?_, ⟨fun {other key} h => ?_, fun {other} h => ?_⟩⟩
  · rcases state_setState_eq_or shapes id s other with hs | ⟨rfl, hs⟩
    · rw [hs]
      exact hdistinct other
    · rw [hs]
      exact hnodup (hdistinct other)
  · rw [keys, representative, resolve_setState hforward]
    rcases state_setState_eq_or shapes id s (shapes.resolve other) with hs | ⟨rfl, hs⟩
    · rwa [hs]
    · rw [hs]
      exact hkeys key h
  · rw [spills, representative, resolve_setState hforward]
    rcases state_setState_eq_or shapes id s (shapes.resolve other) with hs | ⟨rfl, hs⟩
    · rwa [hs]
    · rw [hs]
      exact hspills h

theorem advances_amend (hf : shapes.Forest) (id : Nat) (key : String) (type : Ty) :
    shapes.Advances (shapes.amend id key type) := by
  have hev := evolves_amend hf id key type
  revert hev
  unfold amend
  dsimp only
  split
  · exact fun _ => .refl hf
  · intro hev
    exact advances_setState hev rfl nodup_amendKeys (fun _ h => mem_amendKeys h) fun h => h

theorem advances_amendUnknown (hf : shapes.Forest) (id : Nat) :
    shapes.Advances (shapes.amendUnknown id) := by
  have hev := evolves_amendUnknown hf id
  revert hev
  unfold amendUnknown
  dsimp only
  split
  · exact fun _ => .refl hf
  · intro hev
    exact advances_setState hev rfl (fun h => h) (fun _ h => h) fun _ => rfl

theorem advances_freeze (hf : shapes.Forest) (id : Nat) : shapes.Advances (shapes.freeze id) :=
  advances_setState (evolves_freeze hf id) rfl (fun h => h) (fun _ h => h) fun h => h

/-- The keys and the mark of a shape are kept if its old representative gives its own, or
those of a shape that has them. -/
theorem widens_of_resolve {after : Shapes} (hf : shapes.Forest) (hev : shapes.Evolves after)
    (h : ∀ rep, shapes.IsRoot rep → shapes.Has rep →
      (∀ key ∈ (shapes.state rep).keys.map Prod.fst,
        key ∈ (after.state (after.resolve rep)).keys.map Prod.fst) ∧
      ((shapes.state rep).spills = true → (after.state (after.resolve rep)).spills = true)) :
    shapes.Widens after := by
  have hrep (id : Nat) :
      after.representative id = after.state (after.resolve (shapes.resolve id)) := by
    rw [representative, hev.grows.resolve_resolve hf hev.forest]
  constructor
  · intro id key hkey
    by_cases hhas : shapes.Has (shapes.resolve id)
    · rw [keys, hrep]
      exact (h _ (hf.isRoot_resolve id) hhas).1 key hkey
    · rw [keys, representative, state_of_not_has hhas] at hkey
      cases hkey
  · intro id hspills
    by_cases hhas : shapes.Has (shapes.resolve id)
    · rw [spills, hrep]
      exact (h _ (hf.isRoot_resolve id) hhas).2 hspills
    · rw [spills, representative, state_of_not_has hhas] at hspills
      cases hspills

theorem distinct_add {s : ShapeState} (h : shapes.Distinct) (hs : (s.keys.map Prod.fst).Nodup) :
    (shapes.add s).2.Distinct := by
  intro id
  by_cases hle : id ≤ shapes.states.size
  · rw [state_add_of_le shapes s hle]
    exact h id
  · by_cases hnew : id = (shapes.add s).1
    · rw [hnew, state_add]
      exact hs
    · have hnot : ¬ (shapes.add s).2.Has id := by
        have hne : id ≠ shapes.states.size + 1 := hnew
        rw [Has, size_add]
        omega
      rw [state_of_not_has hnot]
      exact List.nodup_nil

theorem distinct_setState {id : Nat} {s : ShapeState} (h : shapes.Distinct)
    (hs : (s.keys.map Prod.fst).Nodup) : (shapes.setState id s).Distinct := by
  intro other
  rcases state_setState_eq_or shapes id s other with hother | ⟨rfl, hother⟩
  · rw [hother]
    exact h other
  · rwa [hother]

theorem advances_fresh (hf : shapes.Forest) : shapes.Advances shapes.fresh.2 := by
  have hev : shapes.Evolves shapes.fresh.2 := evolves_add hf rfl
  refine ⟨hev, fun h => distinct_add h List.nodup_nil, widens_of_resolve hf hev ?_⟩
  intro rep hroot hhas
  have hstate : shapes.fresh.2.state rep = shapes.state rep := state_add_of_le _ _ hhas.2
  have hstays : shapes.fresh.2.resolve rep = rep := resolve_of_isRoot (by rwa [IsRoot, hstate])
  rw [hstays, hstate]
  exact ⟨fun _ h => h, fun h => h⟩

/-- The shape that two others are merged into has the keys and the marks of both. -/
theorem joint_covers (shapes : Shapes) {ra rb rep : Nat} (h : rep = ra ∨ rep = rb) :
    (∀ key ∈ (shapes.state rep).keys.map Prod.fst,
      key ∈ (shapes.joint ra rb).keys.map Prod.fst) ∧
    ((shapes.state rep).spills = true → (shapes.joint ra rb).spills = true) := by
  have hend : rep = min ra rb ∨ rep = max ra rb := by omega
  rcases hend with rfl | rfl
  · exact ⟨fun _ hkey => mem_unionKeys_left hkey _, fun hspills => by simp [joint, hspills]⟩
  · exact ⟨fun _ hkey => mem_unionKeys_right _ hkey, fun hspills => by simp [joint, hspills]⟩

/-- Two classes that a merge joins get the joint shape as their representative, and every other
class keeps its own. -/
theorem merge_of_joined (hf : shapes.Forest) {a b : Nat} (ha : shapes.Has a) (hb : shapes.Has b)
    (hne : shapes.resolve a ≠ shapes.resolve b) (hfreea : shapes.isFrozen a = false)
    (hfreeb : shapes.isFrozen b = false) {id : Nat} (hid : shapes.Has id) :
    let after := (shapes.merge a b).2
    let ra := shapes.resolve a
    let rb := shapes.resolve b
    (shapes.resolve id = ra ∨ shapes.resolve id = rb →
      after.resolve id = shapes.states.size + 1 ∧ after.representative id = shapes.joint ra rb) ∧
    (¬ (shapes.resolve id = ra ∨ shapes.resolve id = rb) →
      after.resolve id = shapes.resolve id ∧
        after.representative id = shapes.representative id) := by
  intro after ra rb
  have hev := (evolves_merge hf ha hb).1
  have hlater := hev.grows.resolve_resolve hf hev.forest id
  obtain ⟨-, hra, hrb⟩ := evolves_join hf (hf.has_resolve ha) (hf.has_resolve hb)
    (hf.isRoot_resolve a) (hf.isRoot_resolve b) hne hfreea hfreeb (s := shapes.joint ra rb) rfl
  obtain h | h | h := merge_cases shapes a b
  · exact absurd h.1 hne
  · simp [hfreea, hfreeb] at h
  have hafter := congrArg Prod.snd h.2.2.2
  constructor
  · intro hjoined
    have hres : after.resolve id = shapes.states.size + 1 := by
      show (shapes.merge a b).2.resolve id = _
      rw [← hlater, hafter]
      rcases hjoined with heq | heq
      · rw [heq]
        exact hra
      · rw [heq]
        exact hrb
    have hlea := (hf.has_resolve ha).2
    have hleb := (hf.has_resolve hb).2
    have hnea : shapes.states.size + 1 ≠ shapes.resolve a := by omega
    have hneb : shapes.states.size + 1 ≠ shapes.resolve b := by omega
    refine ⟨hres, ?_⟩
    show (shapes.merge a b).2.state _ = _
    rw [hres, hafter, state_setState_of_ne _ hneb, state_setState_of_ne _ hnea]
    exact state_add shapes _
  · intro hother
    rw [not_or] at hother
    have hstate : (shapes.merge a b).2.state (shapes.resolve id) =
        shapes.state (shapes.resolve id) := by
      rw [hafter, state_setState_of_ne _ hother.2, state_setState_of_ne _ hother.1,
        state_add_of_le _ _ (hf.has_resolve hid).2]
    have hres : after.resolve id = shapes.resolve id := by
      show (shapes.merge a b).2.resolve id = _
      rw [← hlater]
      exact resolve_of_isRoot (by rw [IsRoot, hstate]; exact hf.isRoot_resolve id)
    refine ⟨hres, ?_⟩
    show (shapes.merge a b).2.state _ = _
    rw [hres, hstate]
    rfl

theorem advances_merge (hf : shapes.Forest) {a b : Nat} (ha : shapes.Has a) (hb : shapes.Has b) :
    shapes.Advances (shapes.merge a b).2 := by
  rcases merge_cases shapes a b with ⟨-, h⟩ | ⟨-, -, h⟩ | ⟨hne, hfreea, hfreeb, h⟩
  · rw [h]
    exact .refl hf
  · rw [h]
    exact .refl hf
  · have hev := (evolves_merge hf ha hb).1
    refine ⟨hev, fun hdistinct => ?_, widens_of_resolve hf hev fun rep hroot hhas => ?_⟩
    · rw [h]
      exact distinct_setState (distinct_setState (distinct_add hdistinct
        (nodup_unionKeys (hdistinct _) _)) (hdistinct _)) (hdistinct _)
    · obtain ⟨hjoins, hstays⟩ := merge_of_joined hf ha hb hne hfreea hfreeb hhas
      simp only [representative, resolve_of_isRoot hroot] at hjoins hstays
      by_cases hrep : rep = shapes.resolve a ∨ rep = shapes.resolve b
      · rw [(hjoins hrep).2]
        exact joint_covers shapes hrep
      · rw [(hstays hrep).2]
        exact ⟨fun _ hkey => hkey, fun hspills => hspills⟩

/-- Merging is refused if the shapes differ and one of them is frozen, and in no other case;
a refused merge changes nothing. -/
theorem representative?_merge_eq_none_iff (shapes : Shapes) (a b : Nat) :
    (shapes.merge a b).1.representative? = none ↔
      shapes.resolve a ≠ shapes.resolve b ∧
        (shapes.isFrozen a = true ∨ shapes.isFrozen b = true) := by
  rcases merge_cases shapes a b with ⟨hsame, h⟩ | ⟨hne, hfrozen, h⟩ | ⟨hne, hfreea, hfreeb, h⟩
  · rw [h]
    exact ⟨nofun, fun hdiffers => absurd hsame hdiffers.1⟩
  · rw [h]
    exact ⟨fun _ => ⟨hne, by simpa using hfrozen⟩, fun _ => rfl⟩
  · rw [h]
    refine ⟨nofun, fun hfrozen => ?_⟩
    rw [hfreea, hfreeb] at hfrozen
    simp at hfrozen

theorem merge_eq_of_refused {a b : Nat} (hnone : (shapes.merge a b).1.representative? = none) :
    shapes.merge a b = (.refused, shapes) := by
  rcases merge_cases shapes a b with ⟨-, h⟩ | ⟨-, -, h⟩ | ⟨-, -, -, h⟩
  · rw [h] at hnone
    cases hnone
  · exact h
  · rw [h] at hnone
    cases hnone

end Shapes

/-! ## Operations and histories -/

/-- What can be done to shapes. -/
inductive ShapeOperation where
  /-- Make a shape. -/
  | make
  /-- Record a key. -/
  | amend (shape : ShapeId) (key : String) (type : Ty)
  /-- Record that there are keys outside the layout. -/
  | amendUnknown (shape : ShapeId)
  /-- Merge two shapes. -/
  | merge (a b : ShapeId)
  /-- Ask for the layout. -/
  | compile (shape : ShapeId)

namespace ShapeOperation

/-- The shapes that an operation is applied to. -/
def operands : ShapeOperation → List ShapeId
  | .make => []
  | .amend shape _ _ => [shape]
  | .amendUnknown shape => [shape]
  | .merge a b => [a, b]
  | .compile shape => [shape]

/-- Carry an operation out. -/
def perform : ShapeOperation → Learn Unit
  | .make => discard Learn.newShape
  | .amend shape key type => Learn.amend shape key type
  | .amendUnknown shape => Learn.amendUnknown shape
  | .merge a b => discard (Learn.mergeShapes a b)
  | .compile shape => discard (Learn.compileShape shape)

/-- What is known after an operation. -/
def apply (k : Knowledge) (op : ShapeOperation) : Knowledge :=
  (op.perform.run k).2

/-- What is known after a history. -/
def run (k : Knowledge) (ops : List ShapeOperation) : Knowledge :=
  ops.foldl apply k

/-- The operands of an operation exist. -/
def Valid (k : Knowledge) (op : ShapeOperation) : Prop :=
  ∀ id ∈ op.operands, k.shapes.Has id

/-- A history in which every operation is applied to shapes that exist by then. -/
def History : Knowledge → List ShapeOperation → Prop
  | _, [] => True
  | k, op :: ops => op.Valid k ∧ History (op.apply k) ops

instance (shapes : Shapes) (id : Nat) : Decidable (shapes.Has id) :=
  inferInstanceAs (Decidable (_ ∧ _))

instance (k : Knowledge) (op : ShapeOperation) : Decidable (op.Valid k) :=
  inferInstanceAs (Decidable (∀ id ∈ op.operands, k.shapes.Has id))

instance decidableHistory : ∀ (k : Knowledge) (ops : List ShapeOperation), Decidable (History k ops)
  | _, [] => inferInstanceAs (Decidable True)
  | k, op :: ops =>
    have := decidableHistory (apply k op) ops
    inferInstanceAs (Decidable (_ ∧ _))

/-- **The step.** Every operation on shapes that exist lets the shapes advance. -/
theorem advances_apply {k : Knowledge} (hf : k.shapes.Forest) {op : ShapeOperation}
    (hvalid : op.Valid k) : k.shapes.Advances (op.apply k).shapes := by
  cases op with
  | make => exact Shapes.advances_fresh hf
  | amend shape key type => exact Shapes.advances_amend hf shape key type
  | amendUnknown shape => exact Shapes.advances_amendUnknown hf shape
  | merge a b =>
    have hshapes : (apply k (.merge a b)).shapes = (k.shapes.merge a b).2 :=
      (Learn.run_mergeShapes k a b).2.1
    rw [hshapes]
    exact Shapes.advances_merge hf (hvalid a (by simp [operands])) (hvalid b (by simp [operands]))
  | compile shape =>
    have hshapes : (apply k (.compile shape)).shapes =
        if k.shapes.isFrozen shape then k.shapes else k.shapes.freeze shape :=
      (Learn.run_compileShape k shape).2.1
    rw [hshapes]
    split
    · exact .refl hf
    · exact Shapes.advances_freeze hf shape

/-- **The run.** A history lets the shapes advance. -/
theorem advances_run {k : Knowledge} {ops : List ShapeOperation} (hf : k.shapes.Forest)
    (hops : History k ops) : k.shapes.Advances (run k ops).shapes := by
  induction ops generalizing k with
  | nil => exact .refl hf
  | cons op ops ih =>
    have hstep := advances_apply hf hops.1
    exact hstep.trans (ih hstep.evolves.forest hops.2)

/-- At first there are no shapes. -/
theorem state_empty (id : Nat) : Knowledge.empty.shapes.state id = .blank := by
  cases id <;> rfl

/-- Asking for the layout of a shape freezes it and leaves its layout as it is. -/
theorem frozen_compile {k : Knowledge} (hf : k.shapes.Forest) {shape : ShapeId}
    (hshape : k.shapes.Has shape) :
    (apply k (.compile shape)).shapes.isFrozen shape = true ∧
      (apply k (.compile shape)).shapes.layout shape = k.shapes.layout shape := by
  have hshapes : (apply k (.compile shape)).shapes =
      if k.shapes.isFrozen shape then k.shapes else k.shapes.freeze shape :=
    (Learn.run_compileShape k shape).2.1
  rw [hshapes]
  split
  · next hfrozen => exact ⟨hfrozen, rfl⟩
  · exact ⟨Shapes.isFrozen_freeze hf hshape, Shapes.layout_freeze hf hshape⟩

/-- Once asked for, the layout of a shape is the same for ever. -/
theorem layout_run_of_frozen {k : Knowledge} (hf : k.shapes.Forest) {shape : ShapeId}
    (hfrozen : k.shapes.isFrozen shape = true) {ops : List ShapeOperation} (hops : History k ops) :
    (run k ops).shapes.isFrozen shape = true ∧
      (run k ops).shapes.layout shape = k.shapes.layout shape := by
  have hev := (advances_run hf hops).evolves
  exact ⟨hev.grows.isFrozen hf hev.forest hfrozen, hev.grows.layout_eq hf hev.forest hfrozen⟩

end ShapeOperation

open ShapeOperation in
/-- **Shapes over time.**  After any history the shapes form a forest, every representative
is a root, and no shape lists a key twice.  Whatever is done then, the keys and the mark of
every shape only grow.  From the moment that its layout is asked for, a shape keeps its
representative, keys, mark and layout, and the layout is the one that they describe.  A
merge gives nothing exactly if the shapes differ and one of them is frozen, and then it
leaves everything as it was. -/
theorem shapes_of_history {ops : List ShapeOperation} (hops : History .empty ops) :
    let k := run .empty ops
    k.shapes.Forest ∧ (∀ id, k.shapes.IsRoot (k.shapes.resolve id)) ∧
    (∀ id, (k.shapes.keys id).Nodup) ∧
    (∀ more, History k more → k.shapes.Widens (run k more).shapes) ∧
    (∀ shape, k.shapes.Has shape → ∀ more, History (apply k (.compile shape)) more →
      let layout := ((Learn.compileShape shape).run k).1
      let later := run (apply k (.compile shape)) more
      layout.shape = k.shapes.resolve shape ∧ layout.keys.toList = k.shapes.keys shape ∧
      layout.spills = k.shapes.spills shape ∧ later.shapes.resolve shape = layout.shape ∧
      later.shapes.keys shape = layout.keys.toList ∧ later.shapes.spills shape = layout.spills ∧
      (Learn.compileShape shape).run later = (layout, later)) ∧
    ∀ a b, (((Learn.mergeShapes a b).run k).1 = none ↔
        k.shapes.resolve a ≠ k.shapes.resolve b ∧
          (k.shapes.isFrozen a = true ∨ k.shapes.isFrozen b = true)) ∧
      (((Learn.mergeShapes a b).run k).1 = none → ((Learn.mergeShapes a b).run k).2 = k) := by
  intro k
  have hstart := advances_run (Shapes.forest_of_blank state_empty) hops
  have hdistinct : k.shapes.Distinct := hstart.distinct fun id => by
    rw [state_empty]
    exact List.nodup_nil
  have hf : k.shapes.Forest := hstart.evolves.forest
  refine ⟨hf, hf.isRoot_resolve, fun id => hdistinct _,
    fun more hmore => (advances_run hf hmore).widens, fun shape hshape more hmore => ?_,
    fun a b => ⟨?_, fun hnone => ?_⟩⟩
  · obtain ⟨hfrozen, hlayout⟩ := frozen_compile hf hshape
    have hstep : k.shapes.Advances (apply k (.compile shape)).shapes :=
      advances_apply hf fun id hid => by rwa [List.mem_singleton.mp hid]
    obtain ⟨hlater, hsame⟩ := layout_run_of_frozen hstep.evolves.forest hfrozen hmore
    rw [hlayout] at hsame
    intro layout later
    have hnow : layout = k.shapes.layout shape := (Learn.run_compileShape k shape).1
    have hthen : later.shapes.layout shape = layout := hsame.trans hnow.symm
    refine ⟨by rw [hnow]; rfl, by rw [hnow]; rfl, by rw [hnow]; rfl, by rw [← hthen]; rfl,
      by rw [← hthen]; rfl, by rw [← hthen]; rfl, ?_⟩
    rw [Learn.run_compileShape_of_frozen hlater, hthen]
  · rw [(Learn.run_mergeShapes k a b).1]
    exact Shapes.representative?_merge_eq_none_iff k.shapes a b
  · rw [(Learn.run_mergeShapes k a b).1] at hnone
    rw [Learn.run_mergeShapes_of_refused (Shapes.merge_eq_of_refused hnone)]

/-- Two shapes that were merged and then compiled are not changed by what follows. -/
theorem shapes_of_history_merged :
    let ops := [.make, .make, .amend 1 "x" .integer, .amend 2 "y" .string, .merge 1 2]
    let more := [.make, .amend 2 "z" .float, .amendUnknown 1, .merge 2 4, .compile 4]
    let k := ShapeOperation.run .empty ops
    let later := ShapeOperation.run (ShapeOperation.apply k (.compile 1)) more
    ShapeOperation.History .empty ops ∧
    ShapeOperation.History (ShapeOperation.apply k (.compile 1)) more ∧
    k.shapes.resolve 1 = 3 ∧ later.shapes.resolve 1 = 3 ∧ later.shapes.keys 1 = ["x", "y"] := by
  intro ops more k later
  have hops : ShapeOperation.History .empty ops := by decide
  have hmore : ShapeOperation.History (ShapeOperation.apply k (.compile 1)) more := by decide
  obtain ⟨hresolve, hkeys, -, hlater, hlaterKeys, -⟩ :=
    (shapes_of_history hops).2.2.2.2.1 1 (by decide) more hmore
  have hrep : k.shapes.resolve 1 = 3 := by decide
  refine ⟨hops, hmore, hrep, hlater.trans (hresolve.trans hrep), ?_⟩
  rw [hlaterKeys, hkeys]
  decide
end AdaptiveScript
