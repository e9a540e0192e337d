import AdaptiveScript.Proofs.Run.Operation

/-!
# Observed types

When an engine looks at a value, it sees a type: the most precise one that it can name.
Dispatch, specialization and the guards of call sites rest on what was seen at one moment
and used at later ones.  This module says why they may.  The type that is seen of a value
admits it then and ever after, whatever happens to the shapes in between; and it is the only
such type up to the names of merged shapes, apart from the two types that say less
(`observed_of_becomes`).

An engine that has not registered the shape of a table sees a table and no more.  Then there
is a more precise type, which it cannot name.
-/

namespace AdaptiveScript

namespace Ty

/-- Two types are the same, except that a prototype may be shown under different names. -/
def Agrees : Ty → Ty → Prop
  | .function proto, .function other => proto.id = other.id
  | type, other => type = other

variable {shapes : Shapes} {heap : Heap} {registry : Registry} {v : Value}

/-- A type that names a shape and admits a table is, up to merges, the one that an engine
sees that has registered the shape of the table. -/
theorem canonical_eq_of_admits (hf : shapes.Forest) {shape : ShapeId} (hshape : shapes.Has shape)
    {ref : TableId} (hadmits : (heap.table ref).layout.shape = shapes.resolve shape)
    (hknown : registry.contains (heap.table ref).layout.shape = true) :
    (Ty.tableOf shape).canonical shapes =
      (ofValue registry heap (.table ref)).canonical shapes := by
  have hne : (heap.table ref).layout.shape ≠ dynamicShape := by
    rw [hadmits]
    exact Nat.ne_of_gt (hf.has_resolve hshape).1
  have htype : ofValue registry heap (.table ref) = .tableOf (heap.table ref).layout.shape := by
    unfold ofValue
    exact if_pos ⟨hne, hknown⟩
  rw [htype, hadmits]
  show Ty.tableOf (shapes.resolve shape) = .tableOf (shapes.resolve (shapes.resolve shape))
  rw [hf.resolve_resolve]

/-- What a type that admits a value can be. -/
theorem agrees_of_admits (hf : shapes.Forest) {other : Ty} (hother : other.Has shapes)
    (hadmits : other.admits shapes heap v = true) :
    other = .unknown ∨ other = .anyTable ∨
      (other.canonical shapes).Agrees ((ofValue registry heap v).canonical shapes) ∨
      ∃ ref, v = .table ref ∧ registry.contains (heap.table ref).layout.shape = false := by
  cases other with
  | unknown => exact .inl rfl
  | anyTable => exact .inr (.inl rfl)
  | tableOf shape =>
    obtain ⟨ref, rfl, hresolve⟩ := admits_tableOf.1 hadmits
    cases hknown : registry.contains (heap.table ref).layout.shape with
    | false => exact .inr (.inr (.inr ⟨ref, rfl, hknown⟩))
    | true =>
      rw [← canonical_eq_of_admits hf hother hresolve hknown]
      exact .inr (.inr (.inl rfl))
  | function proto =>
    obtain ⟨ref, closure, rfl, hclosure, hid⟩ := admits_function.1 hadmits
    refine .inr (.inr (.inl ?_))
    simp only [ofValue, hclosure]
    exact hid.symm
  | nil =>
    cases v with
    | nil => exact .inr (.inr (.inl rfl))
    | _ => cases hadmits
  | boolean =>
    cases v with
    | bool _ => exact .inr (.inr (.inl rfl))
    | _ => cases hadmits
  | integer =>
    cases v with
    | int _ => exact .inr (.inr (.inl rfl))
    | _ => cases hadmits
  | float =>
    cases v with
    | float _ => exact .inr (.inr (.inl rfl))
    | _ => cases hadmits
  | string =>
    cases v with
    | str _ => exact .inr (.inr (.inl rfl))
    | _ => cases hadmits

end Ty

/-- **Observed types are valid and stay valid.**  In every machine, the type that an engine
sees of a value, whatever shapes it has registered, admits the value, and so it does in
every later machine.  Any other type that admits the value says nothing, or no more than
that it is a table, or is the same type up to the names of merged shapes, unless the value is
a table whose shape the engine has not registered. -/
theorem observed_of_becomes {m : Machine} (hm : Machine.empty.Becomes m) (registry : Registry)
    (v : Value) :
    let type := Ty.ofValue registry m.heap v
    (∀ m', m.Becomes m' → type.admits m'.shapes m'.heap v = true) ∧
    ∀ other : Ty, other.Has m.shapes → other.admits m.shapes m.heap v = true →
      other = .unknown ∨ other = .anyTable ∨
        (other.canonical m.shapes).Agrees (type.canonical m.shapes) ∨
        ∃ ref, v = .table ref ∧ registry.contains (m.heap.table ref).layout.shape = false := by
  have hsound : m.Sound := (hm.advances Machine.sound_empty).sound
  have hnow := Ty.admits_ofValue hsound.forest hsound.laid registry v
  refine ⟨fun m' hlater => ?_, fun other hother hadmits =>
    Ty.agrees_of_admits hsound.forest hother hadmits⟩
  obtain ⟨hsound', hgrows⟩ := hlater.advances hsound
  exact hsound.admits hsound' hgrows (Ty.has_ofValue hsound.laid registry v) hnow

/-- A table of two merged shapes is seen under their common name for ever, and each of the
old names stands for it. -/
theorem observed_of_becomes_merged :
    let ops := [.changeShape .make, .changeShape .make, .changeShape (.merge 1 2),
      .changeShape (.compile 1), .addTable (some 1)]
    let m := Operation.run .empty ops
    Machine.empty.Becomes m ∧ Ty.ofValue ⟨[3]⟩ m.heap (.table 0) = .tableOf 3 ∧
    (∀ m', m.Becomes m' → (Ty.tableOf 3).admits m'.shapes m'.heap (.table 0) = true) ∧
    (Ty.tableOf 2).canonical m.shapes = .tableOf 3 := by
  intro ops m
  have hvalid : Operation.AllValid .empty ops := by
    refine ⟨?_, ?_, ?_, ?_, ?_, trivial⟩
    · show ShapeOperation.Valid _ .make
      decide
    · show ShapeOperation.Valid _ .make
      decide
    · show ShapeOperation.Valid _ (.merge 1 2)
      decide
    · show ShapeOperation.Valid _ (.compile 1)
      decide
    · intro id hid
      cases hid
      decide
  have hm : Machine.empty.Becomes m :=
    .operate (.refl _) (.of_operations (fun _ _ => trivial) hvalid)
  obtain ⟨hadmits, hagrees⟩ := observed_of_becomes hm ⟨[3]⟩ (.table 0)
  have htype : Ty.ofValue ⟨[3]⟩ m.heap (.table 0) = .tableOf 3 := by decide
  rw [htype] at hadmits hagrees
  have hhas : m.shapes.Has 2 := by decide
  refine ⟨hm, htype, hadmits, ?_⟩
  rcases hagrees (.tableOf 2) hhas (by decide) with h | h | h | ⟨ref, href, hunknown⟩
  · cases h
  · cases h
  · exact h.trans (by decide)
  · cases href
    cases hunknown

end AdaptiveScript
