import AdaptiveScript.Proofs.Shape.History
import Mathlib.Data.List.Induction
import Mathlib.Logic.Relation
import Mathlib.Order.Bounds.Basic

/-!
# The order of operations on shapes

Between two compilations shapes are only amended and merged.  The numbers of the representatives
and the order of their keys depend on the order in which this happens, and nothing else does.

The reason is that what is known at the end can be told without an order.  The classes are those
of the equivalence that the merges generate (`Shapes.Linked`), where a merge that names a frozen
shape does not count.  The type of a key is the join of all types that are told about it in the
class, by an amendment or from the beginning (`Shapes.Tells`), and a class is marked for keys
outside the layout if one of its shapes is (`Shapes.Marks`).  `Shapes.Collects` says that shapes are
in this state; it holds at first and every operation keeps it.

## Main statements

* `keyType?_amend`, `merge_of_reachesEither`: what operations do to the type of a key.
* `collects_run`: what is known after some operations.
* `shapes_of_perm`: two orders of the same operations.
-/

namespace AdaptiveScript

/-! ## Joining types -/

namespace Ty

instance : Max Ty :=
  ⟨join⟩

instance : SemilatticeSup Ty :=
  SemilatticeSup.mk' join_comm join_assoc join_self

/-- The join of some types, if there are any. -/
def Joins (types : Set Ty) : Option Ty → Prop
  | none => types = ∅
  | some type => types.Nonempty ∧ IsLUB types type

theorem Joins.unique {types : Set Ty} {x y : Option Ty} (hx : Joins types x) (hy : Joins types y) :
    x = y := by
  cases x with
  | none =>
    cases y with
    | none => rfl
    | some u => exact absurd hx hy.1.ne_empty
  | some t =>
    cases y with
    | none => exact absurd hy hx.1.ne_empty
    | some u => rw [hx.2.unique hy.2]

theorem joins_singleton (type : Ty) : Joins {type} (some type) :=
  ⟨Set.singleton_nonempty type, isLUB_singleton⟩

theorem Joins.union {s t : Set Ty} {x y : Option Ty} (hx : Joins s x) (hy : Joins t y) :
    Joins (s ∪ t) (Option.merge join x y) := by
  cases x with
  | none =>
    obtain rfl : s = ∅ := hx
    cases y with
    | none =>
      obtain rfl : t = ∅ := hy
      exact Set.union_self ∅
    | some u =>
      rw [Set.empty_union]
      exact hy
  | some t' =>
    cases y with
    | none =>
      obtain rfl : t = ∅ := hy
      rw [Set.union_empty]
      exact hx
    | some u => exact ⟨hx.1.inl, hx.2.union hy.2⟩

end Ty

/-! ## Types of keys -/

theorem lookup_cons_eq (k : String) (t : Ty) (rest : List (String × Ty)) (key : String) :
    ((k, t) :: rest).lookup key = if key = k then some t else rest.lookup key := by
  by_cases h : key = k
  · simp [h]
  · rw [List.lookup_cons, beq_false_of_ne h, if_neg h]

theorem lookup_amendKeys (key : String) (type : Ty) (keys : List (String × Ty)) (other : String) :
    (amendKeys key type keys).lookup other =
      if other = key then Option.merge Ty.join (keys.lookup other) (some type)
      else keys.lookup other := by
  induction keys with
  | nil => simp [amendKeys, lookup_cons_eq, Option.merge]
  | cons entry rest ih =>
    obtain ⟨k, t⟩ := entry
    by_cases hk : k = key
    · subst hk
      by_cases h : other = k <;> simp [amendKeys, lookup_cons_eq, h, Option.merge]
    · rw [amendKeys, if_neg hk, lookup_cons_eq, lookup_cons_eq, ih]
      by_cases h : other = k
      · have hne : other ≠ key := fun heq => hk (h.symm.trans heq)
        simp only [if_pos h, if_neg hne]
      · simp only [if_neg h]

theorem lookup_eq_none_iff {keys : List (String × Ty)} {key : String} :
    keys.lookup key = none ↔ key ∉ keys.map Prod.fst := by
  induction keys with
  | nil => simp
  | cons entry rest ih =>
    obtain ⟨k, t⟩ := entry
    rw [lookup_cons_eq, List.map_cons, List.mem_cons, not_or, ← ih]
    by_cases h : key = k <;> simp [h]

/-- In a union of keys both types of a key are joined. -/
theorem lookup_unionKeys (first : List (String × Ty)) {second : List (String × Ty)}
    (hsecond : (second.map Prod.fst).Nodup) (key : String) :
    (unionKeys first second).lookup key =
      Option.merge Ty.join (first.lookup key) (second.lookup key) := by
  induction second generalizing first with
  | nil => cases h : first.lookup key <;> simp [unionKeys, h, Option.merge]
  | cons entry rest ih =>
    obtain ⟨k, t⟩ := entry
    rw [List.map_cons, List.nodup_cons] at hsecond
    show (unionKeys (amendKeys k t first) rest).lookup key = _
    rw [ih _ hsecond.2, lookup_amendKeys, lookup_cons_eq]
    by_cases h : key = k
    · subst h
      rw [if_pos rfl, if_pos rfl, lookup_eq_none_iff.mpr hsecond.1]
      cases first.lookup key <;> rfl
    · rw [if_neg h, if_neg h]

namespace Shapes

variable {shapes : Shapes}

/-! ## What operations do to a class -/

/-- Changing what is known about a class leaves the others alone. -/
theorem representative_setState (hf : shapes.Forest) {c : Nat} (hc : shapes.Has c) {s : ShapeState}
    (hforward : s.forward = (shapes.representative c).forward) (id : Nat) :
    (shapes.setState (shapes.resolve c) s).representative id =
      if shapes.resolve id = shapes.resolve c then s else shapes.representative id := by
  rw [representative, resolve_setState hforward]
  split
  · next h => rw [h, state_setState_of_has (hf.has_resolve hc)]
  · next h => rw [state_setState_of_ne _ h]; rfl

/-- An amendment reaches the shape: it is in the class of `c`, which is not frozen. -/
def Reaches (shapes : Shapes) (c id : Nat) : Prop :=
  shapes.isFrozen c = false ∧ shapes.resolve id = shapes.resolve c

instance (shapes : Shapes) (c id : Nat) : Decidable (shapes.Reaches c id) :=
  inferInstanceAs (Decidable (_ ∧ _))

theorem representative_amend (hf : shapes.Forest) {c : Nat} (hc : shapes.Has c) (key : String)
    (type : Ty) (id : Nat) :
    (shapes.amend c key type).representative id =
      if shapes.Reaches c id then
        { shapes.representative id with
          keys := amendKeys key type.shallow (shapes.representative id).keys }
      else shapes.representative id := by
  unfold amend Reaches isFrozen
  dsimp only
  split
  · next h => simp [representative, h]
  · next h =>
    rw [representative_setState hf hc (by rfl)]
    by_cases hid : shapes.resolve id = shapes.resolve c <;> simp [representative, h, hid]

theorem representative_amendUnknown (hf : shapes.Forest) {c : Nat} (hc : shapes.Has c) (id : Nat) :
    (shapes.amendUnknown c).representative id =
      if shapes.Reaches c id then { shapes.representative id with spills := true }
      else shapes.representative id := by
  unfold amendUnknown Reaches isFrozen
  dsimp only
  split
  · next h => simp [representative, h]
  · next h =>
    rw [representative_setState hf hc (by rfl)]
    by_cases hid : shapes.resolve id = shapes.resolve c <;> simp [representative, h, hid]

/-- The type that an amendment adds is joined with the one that the key had. -/
theorem keyType?_amend (hf : shapes.Forest) {c : Nat} (hc : shapes.Has c) (key : String)
    (type : Ty) (id : Nat) (other : String) :
    (shapes.amend c key type).keyType? id other =
      if shapes.Reaches c id ∧ other = key then
        Option.merge Ty.join (shapes.keyType? id other) (some type.shallow)
      else shapes.keyType? id other := by
  rw [keyType?, representative_amend hf hc]
  by_cases hreaches : shapes.Reaches c id
  · rw [if_pos hreaches, lookup_amendKeys]
    simp only [hreaches, true_and, keyType?]
  · rw [if_neg hreaches, if_neg fun h => hreaches h.1, keyType?]

/-- A merge reaches the shape: neither `a` nor `b` is frozen, and it is in one of their classes. -/
def ReachesEither (shapes : Shapes) (a b id : Nat) : Prop :=
  shapes.isFrozen a = false ∧ shapes.isFrozen b = false ∧
    (shapes.resolve id = shapes.resolve a ∨ shapes.resolve id = shapes.resolve b)

section

variable {a b : Nat}

/-- A merge makes one class of the two that it reaches. -/
theorem resolve_merge_iff (hf : shapes.Forest) (ha : shapes.Has a) (hb : shapes.Has b)
    {id other : Nat} (hid : shapes.Has id) (hother : shapes.Has other) :
    (shapes.merge a b).2.resolve id = (shapes.merge a b).2.resolve other ↔
      shapes.resolve id = shapes.resolve other ∨
        shapes.ReachesEither a b id ∧ shapes.ReachesEither a b other := by
  unfold ReachesEither
  rcases merge_cases shapes a b with ⟨hsame, h⟩ | ⟨-, hfrozen, h⟩ | ⟨hne, hfreea, hfreeb, -⟩
  · rw [h, hsame]
    grind
  · rw [h]
    simp only [Bool.or_eq_true] at hfrozen
    grind
  · obtain ⟨hjoins, hstays⟩ := merge_of_joined hf ha hb hne hfreea hfreeb hid
    obtain ⟨hjoins', hstays'⟩ := merge_of_joined hf ha hb hne hfreea hfreeb hother
    have hle := (hf.has_resolve hid).2
    have hle' := (hf.has_resolve hother).2
    grind

/-- The shape that two others are merged into joins the types of their keys, whichever comes
first. -/
theorem lookup_joint (hdistinct : shapes.Distinct) (key : String) :
    (shapes.joint (shapes.resolve a) (shapes.resolve b)).keys.lookup key =
      Option.merge Ty.join (shapes.keyType? a key) (shapes.keyType? b key) := by
  have hcomm (x y : Option Ty) : Option.merge Ty.join x y = Option.merge Ty.join y x := by
    cases x <;> cases y <;> simp [Option.merge, Ty.join_comm]
  unfold joint
  rcases Nat.le_total (shapes.resolve a) (shapes.resolve b) with hle | hle
  · rw [Nat.min_eq_left hle, Nat.max_eq_right hle, lookup_unionKeys _ (hdistinct _)]
    rfl
  · rw [Nat.min_eq_right hle, Nat.max_eq_left hle, lookup_unionKeys _ (hdistinct _), hcomm]
    rfl

theorem spills_joint :
    (shapes.joint (shapes.resolve a) (shapes.resolve b)).spills =
      (shapes.spills a || shapes.spills b) := by
  unfold joint
  rcases Nat.le_total (shapes.resolve a) (shapes.resolve b) with hle | hle
  · rw [Nat.min_eq_left hle, Nat.max_eq_right hle]
    rfl
  · rw [Nat.min_eq_right hle, Nat.max_eq_left hle, Bool.or_comm]
    rfl

/-- What is known about a shape after a merge that reaches it: what was known about both. -/
theorem merge_of_reachesEither (hf : shapes.Forest) (hdistinct : shapes.Distinct)
    (ha : shapes.Has a) (hb : shapes.Has b) {id : Nat} (hid : shapes.Has id)
    (hreaches : shapes.ReachesEither a b id) :
    (∀ key, (shapes.merge a b).2.keyType? id key =
      Option.merge Ty.join (shapes.keyType? a key) (shapes.keyType? b key)) ∧
    (shapes.merge a b).2.spills id = (shapes.spills a || shapes.spills b) ∧
    (shapes.merge a b).2.isFrozen id = false := by
  obtain ⟨hfreea, hfreeb, hclass⟩ := hreaches
  rcases merge_cases shapes a b with ⟨hsame, h⟩ | ⟨-, hfrozen, h⟩ | ⟨hne, -, -, -⟩
  · -- both are in the class already
    have hid : shapes.representative id = shapes.representative a := by
      rcases hclass with heq | heq
      · rw [representative, heq, representative]
      · rw [representative, heq, ← hsame, representative]
    have hrep : shapes.representative b = shapes.representative a := by
      rw [representative, ← hsame, representative]
    rw [h]
    simp only [keyType?, spills, isFrozen, hid, hrep, Bool.or_self] at hfreea ⊢
    refine ⟨fun key => ?_, trivial, hfreea⟩
    cases (shapes.representative a).keys.lookup key <;> simp [Option.merge, Ty.join_self]
  · simp [hfreea, hfreeb] at hfrozen
  · obtain ⟨-, hrep⟩ := (merge_of_joined hf ha hb hne hfreea hfreeb hid).1 hclass
    simp only [keyType?, spills, isFrozen, hrep]
    exact ⟨fun key => lookup_joint hdistinct key, spills_joint, rfl⟩

theorem representative_merge_of_not_reachesEither (hf : shapes.Forest) (ha : shapes.Has a)
    (hb : shapes.Has b) {id : Nat} (hid : shapes.Has id)
    (hreaches : ¬ shapes.ReachesEither a b id) :
    (shapes.merge a b).2.representative id = shapes.representative id := by
  rcases merge_cases shapes a b with ⟨-, h⟩ | ⟨-, -, h⟩ | ⟨hne, hfreea, hfreeb, -⟩
  · rw [h]
  · rw [h]
  · exact ((merge_of_joined hf ha hb hne hfreea hfreeb hid).2
      fun h => hreaches ⟨hfreea, hfreeb, h⟩).2

theorem isFrozen_merge (hf : shapes.Forest) (hdistinct : shapes.Distinct) (ha : shapes.Has a)
    (hb : shapes.Has b) {id : Nat} (hid : shapes.Has id) :
    (shapes.merge a b).2.isFrozen id = shapes.isFrozen id := by
  by_cases hreaches : shapes.ReachesEither a b id
  · rw [(merge_of_reachesEither hf hdistinct ha hb hid hreaches).2.2]
    obtain ⟨hfreea, hfreeb, heq | heq⟩ := hreaches
    · rw [isFrozen, representative, heq]
      exact hfreea.symm
    · rw [isFrozen, representative, heq]
      exact hfreeb.symm
  · rw [isFrozen, representative_merge_of_not_reachesEither hf ha hb hid hreaches, isFrozen]

end

/-! ## What is known without an order -/

variable (shapes) in
/-- Two shapes that are in one class: from the beginning, or by a merge of shapes that are not
frozen. -/
def Tied (ops : List ShapeOperation) (a b : Nat) : Prop :=
  shapes.resolve a = shapes.resolve b ∨
    .merge a b ∈ ops ∧ shapes.isFrozen a = false ∧ shapes.isFrozen b = false

variable (shapes) in
/-- The classes that some operations make. -/
def Linked (ops : List ShapeOperation) : Nat → Nat → Prop :=
  Relation.EqvGen (shapes.Tied ops)

variable (shapes) in
/-- A type of a key that is known of one shape: from the beginning, or because the key was amended
while the shape was not frozen. -/
def Tells (ops : List ShapeOperation) (b : Nat) (key : String) (type : Ty) : Prop :=
  shapes.keyType? b key = some type ∨
    ∃ found, .amend b key found ∈ ops ∧ shapes.isFrozen b = false ∧ found.shallow = type

variable (shapes) in
/-- A shape is marked for keys outside the layout. -/
def Marks (ops : List ShapeOperation) (b : Nat) : Prop :=
  shapes.spills b = true ∨ .amendUnknown b ∈ ops ∧ shapes.isFrozen b = false

/-- A merge makes one class of two, unless one of the shapes is frozen. -/
theorem linked_concat_merge {ops : List ShapeOperation} {c d a b : Nat} :
    shapes.Linked (ops ++ [.merge c d]) a b ↔ shapes.Linked ops a b ∨
      (shapes.isFrozen c = false ∧ shapes.isFrozen d = false) ∧
        (shapes.Linked ops a c ∨ shapes.Linked ops a d) ∧
          (shapes.Linked ops b c ∨ shapes.Linked ops b d) := by
  constructor
  · intro h
    induction h with
    | rel x y h =>
      rcases h with hsame | ⟨hmem, hfree⟩
      · exact .inl (.rel _ _ (.inl hsame))
      · rcases List.mem_append.mp hmem with hold | hnew
        · exact .inl (.rel _ _ (.inr ⟨hold, hfree⟩))
        · obtain ⟨rfl, rfl⟩ : x = c ∧ y = d := by simpa using hnew
          exact .inr ⟨hfree, .inl (.refl _), .inr (.refl _)⟩
    | refl x => exact .inl (.refl x)
    | symm x y _ ih => exact ih.imp (fun h => .symm _ _ h) fun h => ⟨h.1, h.2.2, h.2.1⟩
    | trans x y z _ _ ihxy ihyz =>
      rcases ihxy with hxy | ⟨hfree, hx, hy⟩
      · refine ihyz.imp (fun hyz => .trans _ _ _ hxy hyz) fun hboth => ⟨hboth.1, ?_, hboth.2.2⟩
        exact hboth.2.1.imp (fun h => .trans _ _ _ hxy h) (fun h => .trans _ _ _ hxy h)
      · refine .inr ⟨hfree, hx, ?_⟩
        rcases ihyz with hyz | hboth
        · exact hy.imp (fun h => .trans _ _ _ (.symm _ _ hyz) h)
            (fun h => .trans _ _ _ (.symm _ _ hyz) h)
        · exact hboth.2.2
  · have hmono {x y : Nat} (h : shapes.Linked ops x y) :
        shapes.Linked (ops ++ [.merge c d]) x y := by
      refine Relation.EqvGen.mono (fun x y htied => ?_) _ _ h
      exact htied.imp_right fun hmerge => ⟨List.mem_append_left _ hmerge.1, hmerge.2⟩
    rintro (h | ⟨hfree, hx, hy⟩)
    · exact hmono h
    · have hmerge : shapes.Linked (ops ++ [.merge c d]) c d := .rel _ _ (.inr ⟨by simp, hfree⟩)
      have hto {x : Nat} (h : shapes.Linked ops x c ∨ shapes.Linked ops x d) :
          shapes.Linked (ops ++ [.merge c d]) x c := by
        rcases h with h | h
        · exact hmono h
        · exact .trans _ _ _ (hmono h) (.symm _ _ hmerge)
      exact .trans _ _ _ (hto hx) (.symm _ _ (hto hy))

theorem tells_concat_amend {ops : List ShapeOperation} {c b : Nat} {key other : String}
    {type found : Ty} : shapes.Tells (ops ++ [.amend c key type]) b other found ↔
      shapes.Tells ops b other found ∨
        (b = c ∧ other = key) ∧ shapes.isFrozen c = false ∧ type.shallow = found := by
  constructor
  · rintro (hbefore | ⟨u, hmem, hfree, hfound⟩)
    · exact .inl (.inl hbefore)
    · rcases List.mem_append.mp hmem with hold | hnew
      · exact .inl (.inr ⟨u, hold, hfree, hfound⟩)
      · obtain ⟨rfl, rfl, rfl⟩ : b = c ∧ other = key ∧ u = type := by simpa using hnew
        exact .inr ⟨⟨rfl, rfl⟩, hfree, hfound⟩
  · rintro ((hbefore | ⟨u, hold, hfree⟩) | ⟨⟨rfl, rfl⟩, hfree⟩)
    · exact .inl hbefore
    · exact .inr ⟨u, List.mem_append_left _ hold, hfree⟩
    · exact .inr ⟨type, by simp, hfree⟩

variable (shapes) in
/-- The shapes that were there and are in one class with a shape afterwards. -/
def members (after : Shapes) (a : Nat) : Set Nat :=
  {b | shapes.Has b ∧ after.resolve b = after.resolve a}

variable (shapes) in
/-- The types of a key that are known of some shapes. -/
def told (ops : List ShapeOperation) (among : Set Nat) (key : String) : Set Ty :=
  {type | ∃ b ∈ among, shapes.Tells ops b key type}

theorem told_union (ops : List ShapeOperation) (s t : Set Nat) (key : String) :
    shapes.told ops (s ∪ t) key = shapes.told ops s key ∪ shapes.told ops t key := by
  ext type
  simp [told, or_and_right, exists_or]

section

variable {after : Shapes} {a c d : Nat}

theorem members_merge_of_reachesEither (hev : shapes.Evolves after) (hc : shapes.Has c)
    (hd : shapes.Has d) (ha : shapes.Has a) (hreaches : after.ReachesEither c d a) :
    shapes.members (after.merge c d).2 a = shapes.members after c ∪ shapes.members after d := by
  have hhas {id : Nat} (h : shapes.Has id) : after.Has id := hev.grows.has h
  obtain ⟨hfreec, hfreed, hclass⟩ := hreaches
  ext b
  constructor
  · rintro ⟨hb, heq⟩
    rw [resolve_merge_iff hev.forest (hhas hc) (hhas hd) (hhas hb) (hhas ha)] at heq
    have hclassb : after.resolve b = after.resolve c ∨ after.resolve b = after.resolve d := by
      rcases heq with heq | hboth
      · rwa [heq]
      · exact hboth.1.2.2
    exact hclassb.imp (fun h => ⟨hb, h⟩) fun h => ⟨hb, h⟩
  · intro hmem
    have hb : shapes.Has b := hmem.elim (fun h => h.1) fun h => h.1
    refine ⟨hb, ?_⟩
    rw [resolve_merge_iff hev.forest (hhas hc) (hhas hd) (hhas hb) (hhas ha)]
    exact .inr ⟨⟨hfreec, hfreed, hmem.imp (fun h => h.2) fun h => h.2⟩, hfreec, hfreed, hclass⟩

theorem members_merge_of_not_reachesEither (hev : shapes.Evolves after) (hc : shapes.Has c)
    (hd : shapes.Has d) (ha : shapes.Has a) (hreaches : ¬ after.ReachesEither c d a) :
    shapes.members (after.merge c d).2 a = shapes.members after a := by
  have hhas {id : Nat} (h : shapes.Has id) : after.Has id := hev.grows.has h
  ext b
  refine and_congr_right fun hb => ?_
  rw [resolve_merge_iff hev.forest (hhas hc) (hhas hd) (hhas hb) (hhas ha)]
  exact or_iff_left fun hboth => hreaches hboth.2

end

variable (shapes) in
/-- After some operations exactly what they tell is known. -/
structure Collects (ops : List ShapeOperation) (after : Shapes) : Prop where
  evolves : shapes.Evolves after
  distinct : after.Distinct
  frozen : ∀ {a : Nat}, shapes.Has a → after.isFrozen a = shapes.isFrozen a
  classes : ∀ {a b : Nat}, shapes.Has a → shapes.Has b →
    (after.resolve a = after.resolve b ↔ shapes.Linked ops a b)
  types : ∀ {a : Nat}, shapes.Has a → ∀ key : String,
    Ty.Joins (shapes.told ops (shapes.members after a) key) (after.keyType? a key)
  spills : ∀ {a : Nat}, shapes.Has a →
    (after.spills a = true ↔ ∃ b ∈ shapes.members after a, shapes.Marks ops b)

theorem collects_nil (hf : shapes.Forest) (hdistinct : shapes.Distinct) :
    shapes.Collects [] shapes where
  evolves := .refl hf
  distinct := hdistinct
  frozen _ := rfl
  classes {a b} ha hb := by
    refine ⟨fun h => .rel _ _ (.inl h), fun h => ?_⟩
    clear ha hb
    induction h with
    | rel x y h => exact h.resolve_right fun hmerge => by simp at hmerge
    | refl x => rfl
    | symm x y _ ih => exact ih.symm
    | trans x y z _ _ ihxy ihyz => exact ihxy.trans ihyz
  types {a} ha key := by
    have htold : shapes.told [] (shapes.members shapes a) key =
        {type | shapes.keyType? a key = some type} := by
      ext type
      constructor
      · rintro ⟨b, ⟨-, hb⟩, hfound | ⟨found, hmem, -⟩⟩
        · rwa [keyType?, representative, hb] at hfound
        · simp at hmem
      · exact fun hfound => ⟨a, ⟨ha, rfl⟩, .inl hfound⟩
    rw [htold]
    cases hkey : shapes.keyType? a key with
    | none => exact Set.eq_empty_of_forall_notMem fun type htype => by cases htype
    | some type =>
      have hone : {u | some type = some u} = ({type} : Set Ty) := by
        ext u
        simp [eq_comm]
      rw [hone]
      exact Ty.joins_singleton type
  spills {a} ha := by
    constructor
    · exact fun hspills => ⟨a, ⟨ha, rfl⟩, .inl hspills⟩
    · rintro ⟨b, ⟨-, hb⟩, hspills | ⟨hmem, -⟩⟩
      · rwa [Shapes.spills, representative, hb] at hspills
      · simp at hmem

/-! ## Every operation adds what it tells -/

namespace Collects

variable {ops : List ShapeOperation} {after : Shapes}

theorem amend (h : shapes.Collects ops after) {c : Nat} (hc : shapes.Has c) (key : String)
    (type : Ty) : shapes.Collects (ops ++ [.amend c key type]) (after.amend c key type) := by
  have hf := h.evolves.forest
  have hadvances := advances_amend hf c key type
  have hrep := representative_amend hf (h.evolves.grows.has hc) key type
  have hmembers (a : Nat) :
      shapes.members (after.amend c key type) a = shapes.members after a := by
    simp only [members, resolve_amend]
  refine ⟨h.evolves.trans hadvances.evolves, hadvances.distinct h.distinct, fun ha => ?_,
    fun ha hb => ?_, fun {a} ha other => ?_, fun {a} ha => ?_⟩
  · rw [← h.frozen ha, isFrozen, hrep]
    split <;> rfl
  · have htied : shapes.Tied (ops ++ [.amend c key type]) = shapes.Tied ops := by
      funext x y
      simp [Tied]
    rw [resolve_amend, resolve_amend, h.classes ha hb, Linked, Linked, htied]
  · have htold : shapes.told (ops ++ [.amend c key type]) (shapes.members after a) other =
        shapes.told ops (shapes.members after a) other ∪
          {found | (after.Reaches c a ∧ other = key) ∧ type.shallow = found} := by
      ext found
      constructor
      · rintro ⟨b, hb, htells⟩
        rcases tells_concat_amend.mp htells with hold | ⟨⟨rfl, hkey⟩, hfree, hfound⟩
        · exact .inl ⟨b, hb, hold⟩
        · exact .inr ⟨⟨⟨(h.frozen hc).trans hfree, hb.2.symm⟩, hkey⟩, hfound⟩
      · rintro (⟨b, hb, hold⟩ | ⟨⟨⟨hfree, hclass⟩, hkey⟩, hfound⟩)
        · exact ⟨b, hb, tells_concat_amend.mpr (.inl hold)⟩
        · exact ⟨c, ⟨hc, hclass.symm⟩, tells_concat_amend.mpr
            (.inr ⟨⟨rfl, hkey⟩, (h.frozen hc).symm.trans hfree, hfound⟩)⟩
    rw [hmembers, htold, keyType?_amend hf (h.evolves.grows.has hc)]
    split
    · next hreaches =>
      refine (h.types ha other).union ?_
      simp only [hreaches, and_self, true_and, Set.ofPred_eq_eq_singleton']
      exact Ty.joins_singleton _
    · next hreaches =>
      simp only [hreaches, false_and, Set.ofPred_false, Set.union_empty]
      exact h.types ha other
  · have hmarks : shapes.Marks (ops ++ [.amend c key type]) = shapes.Marks ops := by
      funext x
      simp [Marks]
    rw [hmembers, hmarks, ← h.spills ha, Shapes.spills, hrep]
    split <;> rfl

theorem amendUnknown (h : shapes.Collects ops after) {c : Nat} (hc : shapes.Has c) :
    shapes.Collects (ops ++ [.amendUnknown c]) (after.amendUnknown c) := by
  have hf := h.evolves.forest
  have hadvances := advances_amendUnknown hf c
  have hrep := representative_amendUnknown hf (h.evolves.grows.has hc)
  have hmembers (a : Nat) : shapes.members (after.amendUnknown c) a = shapes.members after a := by
    simp only [members, resolve_amendUnknown]
  refine ⟨h.evolves.trans hadvances.evolves, hadvances.distinct h.distinct, fun ha => ?_,
    fun ha hb => ?_, fun {a} ha other => ?_, fun {a} ha => ?_⟩
  · rw [← h.frozen ha, isFrozen, hrep]
    split <;> rfl
  · have htied : shapes.Tied (ops ++ [.amendUnknown c]) = shapes.Tied ops := by
      funext x y
      simp [Tied]
    rw [resolve_amendUnknown, resolve_amendUnknown, h.classes ha hb, Linked, Linked, htied]
  · have htells : shapes.Tells (ops ++ [.amendUnknown c]) = shapes.Tells ops := by
      funext b key type
      simp [Tells]
    have htype : (after.amendUnknown c).keyType? a other = after.keyType? a other := by
      rw [keyType?, hrep]
      split <;> rfl
    rw [hmembers, told, htells, htype]
    exact h.types ha other
  · rw [hmembers, Shapes.spills, hrep]
    split
    · next hreaches =>
      have hfree := (h.frozen hc).symm.trans hreaches.1
      exact ⟨fun _ => ⟨c, ⟨hc, hreaches.2.symm⟩, .inr ⟨by simp, hfree⟩⟩, fun _ => rfl⟩
    · next hreaches =>
      -- the mark that is new is not one of this class
      refine (h.spills ha).trans (exists_congr fun b => and_congr_right fun hb =>
        or_congr_right (and_congr_left fun hfree => ?_))
      have hne : b ≠ c := by
        rintro rfl
        exact hreaches ⟨(h.frozen hc).trans hfree, hb.2.symm⟩
      simp [hne]

theorem merge (h : shapes.Collects ops after) {c d : Nat} (hc : shapes.Has c)
    (hd : shapes.Has d) : shapes.Collects (ops ++ [.merge c d]) (after.merge c d).2 := by
  have hf := h.evolves.forest
  have hhas {id : Nat} (hid : shapes.Has id) : after.Has id := h.evolves.grows.has hid
  have hadvances := advances_merge hf (hhas hc) (hhas hd)
  have htells : shapes.Tells (ops ++ [.merge c d]) = shapes.Tells ops := by
    funext b key type
    simp [Tells]
  have hmarks : shapes.Marks (ops ++ [.merge c d]) = shapes.Marks ops := by
    funext b
    simp [Marks]
  refine ⟨h.evolves.trans hadvances.evolves, hadvances.distinct h.distinct, fun ha => ?_,
    fun {a b} ha hb => ?_, fun {a} ha key => ?_, fun {a} ha => ?_⟩
  · rw [isFrozen_merge hf h.distinct (hhas hc) (hhas hd) (hhas ha), h.frozen ha]
  · rw [resolve_merge_iff hf (hhas hc) (hhas hd) (hhas ha) (hhas hb), linked_concat_merge]
    simp only [ReachesEither, h.frozen hc, h.frozen hd, h.classes ha hb, h.classes ha hc,
      h.classes ha hd, h.classes hb hc, h.classes hb hd]
    tauto
  · rw [told, htells, ← told]
    by_cases hreaches : after.ReachesEither c d a
    · obtain ⟨htypes, -⟩ :=
        merge_of_reachesEither hf h.distinct (hhas hc) (hhas hd) (hhas ha) hreaches
      rw [members_merge_of_reachesEither h.evolves hc hd ha hreaches, told_union, htypes]
      exact (h.types hc key).union (h.types hd key)
    · rw [members_merge_of_not_reachesEither h.evolves hc hd ha hreaches, keyType?,
        representative_merge_of_not_reachesEither hf (hhas hc) (hhas hd) (hhas ha) hreaches]
      exact h.types ha key
  · rw [hmarks]
    by_cases hreaches : after.ReachesEither c d a
    · obtain ⟨-, hspills, -⟩ :=
        merge_of_reachesEither hf h.distinct (hhas hc) (hhas hd) (hhas ha) hreaches
      rw [members_merge_of_reachesEither h.evolves hc hd ha hreaches, hspills, Bool.or_eq_true,
        h.spills hc, h.spills hd]
      simp only [Set.mem_union, or_and_right, exists_or]
    · rw [members_merge_of_not_reachesEither h.evolves hc hd ha hreaches, Shapes.spills,
        representative_merge_of_not_reachesEither hf (hhas hc) (hhas hd) (hhas ha) hreaches]
      exact h.spills ha

end Collects
end Shapes

namespace ShapeOperation

/-- The operations that gather what is known: all but making a shape and compiling it. -/
def gathers : ShapeOperation → Bool
  | .amend .. => true
  | .amendUnknown _ => true
  | .merge .. => true
  | _ => false

/-- **The step.**  An operation adds what it tells. -/
theorem collects_apply {shapes : Shapes} {ops : List ShapeOperation} {k : Knowledge}
    (h : shapes.Collects ops k.shapes) {op : ShapeOperation} (hgathers : op.gathers = true)
    (hhas : ∀ id ∈ op.operands, shapes.Has id) :
    shapes.Collects (ops ++ [op]) (op.apply k).shapes := by
  cases op with
  | make => cases hgathers
  | compile shape => cases hgathers
  | amend shape key type => exact h.amend (hhas shape (by simp [operands])) key type
  | amendUnknown shape => exact h.amendUnknown (hhas shape (by simp [operands]))
  | merge a b =>
    have hshapes : (apply k (.merge a b)).shapes = (k.shapes.merge a b).2 :=
      (Learn.run_mergeShapes k a b).2.1
    rw [hshapes]
    exact h.merge (hhas a (by simp [operands])) (hhas b (by simp [operands]))

/-- **The run.**  After some operations exactly what they tell is known. -/
theorem collects_run {k : Knowledge} (hf : k.shapes.Forest) (hdistinct : k.shapes.Distinct)
    (ops : List ShapeOperation) (hops : ∀ op ∈ ops, op.gathers = true ∧ op.Valid k) :
    k.shapes.Collects ops (run k ops).shapes := by
  induction ops using List.reverseRecOn with
  | nil => exact Shapes.collects_nil hf hdistinct
  | append_singleton ops op ih =>
    have hop := hops op (by simp)
    have hrun : run k (ops ++ [op]) = op.apply (run k ops) := by simp [run]
    rw [hrun]
    exact collects_apply (ih fun other hother => hops other (by simp [hother])) hop.1 hop.2

end ShapeOperation
namespace Shapes

/-- The keys of a shape are those that a type is known for. -/
theorem mem_keys_iff {shapes : Shapes} {a : Nat} {key : String} :
    key ∈ shapes.keys a ↔ shapes.keyType? a key ≠ none := by
  rw [keyType?, ne_eq, lookup_eq_none_iff, not_not]
  rfl

/-- Two collections of the same operations agree on everything but the numbers of the
representatives and the order of the keys. -/
theorem Collects.agree {shapes after after' : Shapes} {ops ops' : List ShapeOperation}
    (h : shapes.Collects ops after) (h' : shapes.Collects ops' after') (hperm : ops.Perm ops') :
    (∀ {a b : Nat}, shapes.Has a → shapes.Has b →
      (after.resolve a = after.resolve b ↔ after'.resolve a = after'.resolve b)) ∧
    ∀ {a : Nat}, shapes.Has a → (∀ key, after.keyType? a key = after'.keyType? a key) ∧
      after.spills a = after'.spills a := by
  have htied : shapes.Tied ops = shapes.Tied ops' := by
    funext a b
    simp only [Tied, hperm.mem_iff]
  have htells : shapes.Tells ops = shapes.Tells ops' := by
    funext b key type
    simp only [Tells, hperm.mem_iff]
  have hmarks : shapes.Marks ops = shapes.Marks ops' := by
    funext b
    simp only [Marks, hperm.mem_iff]
  have hclasses {a b : Nat} (ha : shapes.Has a) (hb : shapes.Has b) :
      after.resolve a = after.resolve b ↔ after'.resolve a = after'.resolve b := by
    rw [h.classes ha hb, h'.classes ha hb, Linked, Linked, htied]
  have hmembers {a : Nat} (ha : shapes.Has a) : shapes.members after a = shapes.members after' a := by
    ext b
    exact and_congr_right fun hb => hclasses hb ha
  refine ⟨hclasses, fun {a} ha => ⟨fun key => ?_, ?_⟩⟩
  · have htypes := h.types ha key
    rw [told, htells, hmembers ha] at htypes
    exact htypes.unique (h'.types ha key)
  · rw [Bool.eq_iff_iff, h.spills ha, h'.spills ha, hmembers ha, hmarks]

end Shapes

open ShapeOperation in
/-- **The order of operations on shapes.**  Amend and merge shapes in two orders, with no
compilation in between.  Then the same shapes have a common representative, namely those that the
merges link; and in each class there are the same keys, the same type of each key, which is the join
of all types that are told about it, and the same mark for keys outside the layout. -/
theorem shapes_of_perm {pre ops ops' : List ShapeOperation} (hpre : History .empty pre)
    (hops : ∀ op ∈ ops, op.gathers = true ∧ op.Valid (run .empty pre)) (hperm : ops.Perm ops') :
    let before := (run .empty pre).shapes
    let after := (run (run .empty pre) ops).shapes
    let after' := (run (run .empty pre) ops').shapes
    (∀ a b, before.Has a → before.Has b →
      (after.resolve a = after.resolve b ↔ before.Linked ops a b) ∧
      (after.resolve a = after.resolve b ↔ after'.resolve a = after'.resolve b)) ∧
    ∀ a, before.Has a →
      (after.keys a).Nodup ∧ (after.keys a).Perm (after'.keys a) ∧
      (∀ key, Ty.Joins (before.told ops (before.members after a) key) (after.keyType? a key) ∧
        after.keyType? a key = after'.keyType? a key) ∧
      after.spills a = after'.spills a := by
  intro before after after'
  have hstart := advances_run (Shapes.forest_of_blank state_empty) hpre
  have hdistinct : before.Distinct := hstart.distinct fun id => by
    rw [state_empty]
    exact List.nodup_nil
  have h : before.Collects ops after := collects_run hstart.evolves.forest hdistinct ops hops
  have h' : before.Collects ops' after' := collects_run hstart.evolves.forest hdistinct ops'
    fun op hop => hops op (hperm.mem_iff.mpr hop)
  obtain ⟨hclasses, hknown⟩ := h.agree h' hperm
  refine ⟨fun a b ha hb => ⟨h.classes ha hb, hclasses ha hb⟩, fun a ha => ?_⟩
  obtain ⟨htypes, hspills⟩ := hknown ha
  have hkeys : (after.keys a).Perm (after'.keys a) := by
    refine (List.perm_ext_iff_of_nodup (h.distinct _) (h'.distinct _)).mpr fun key => ?_
    show key ∈ after.keys a ↔ key ∈ after'.keys a
    rw [Shapes.mem_keys_iff, Shapes.mem_keys_iff, htypes key]
  exact ⟨h.distinct _, hkeys, fun key => ⟨h.types ha key, htypes key⟩, hspills⟩

/-- Three shapes that become one class, in two orders: the keys are listed in another order, and
the types found for them are the same. -/
theorem shapes_of_perm_reversed :
    let pre : List ShapeOperation := [.make, .make, .make]
    let ops : List ShapeOperation := [.amend 1 "x" .integer, .merge 1 2, .amend 2 "y" (.tableOf 1),
      .merge 2 3, .amend 3 "x" .float, .amend 3 "y" .anyTable, .amendUnknown 3]
    let k := ShapeOperation.run .empty pre
    let after := (ShapeOperation.run k ops).shapes
    let after' := (ShapeOperation.run k ops.reverse).shapes
    after.keys 1 = ["x", "y"] ∧ after'.keys 1 = ["y", "x"] ∧ (after.keys 1).Perm (after'.keys 1) ∧
      after'.keyType? 1 "x" = some .unknown ∧ after'.keyType? 1 "y" = some .anyTable ∧
      after'.spills 1 = true ∧ after'.resolve 1 = after'.resolve 3 := by
  intro pre ops k after after'
  have hpre : ShapeOperation.History .empty pre := by decide
  have hops : ∀ op ∈ ops, op.gathers = true ∧ op.Valid k := by decide
  obtain ⟨hclasses, hknown⟩ := shapes_of_perm hpre hops ops.reverse_perm.symm
  obtain ⟨-, hkeys, htypes, hspills⟩ := hknown 1 (by decide)
  refine ⟨by decide, by decide, hkeys, ?_, ?_, ?_, ?_⟩
  · exact (htypes "x").2.symm.trans (by decide)
  · exact (htypes "y").2.symm.trans (by decide)
  · exact hspills.symm.trans (by decide)
  · exact (hclasses 1 3 (by decide) (by decide)).2.mp (by decide)

end AdaptiveScript
