import AdaptiveScript.Proofs.Run.Operation

/-!
# Slots are keys

Specialized code reaches a constant key of a table through a slot.  The slot is found when
code is emitted, from the type of an expression, and used when the code runs, on whatever
the expression gives by then.  This module compares slots with keys over that span.

* A field that was found at one moment gives access to its key at every later one, to any
  value at all: `loadField` is `indexValue` and `storeField` is `storeIndex` with that key.
* A table constructor fills slots.  `Emit.writes` emits the entries of a constructor without
  a layout, as writes to keys; the code of the constructor is these writes with slots put in
  for the keys that have one (`Write.init`), and running it makes a table that reads as the
  empty table does after the writes.
-/

namespace AdaptiveScript

/-! ## Filling a table -/

/-- Write keys in order. -/
def Table.fill (t : Table) (pairs : List (Key × Value)) : Table :=
  pairs.foldl (fun t pair => t.set pair.1 pair.2) t

/-- Tables that are the same map are so after the same writes. -/
theorem Table.Same.fill {t u : Table} (h : t.Same u) (ht : t.Regular) (pairs : List (Key × Value)) :
    (t.fill pairs).Same (u.fill pairs) := by
  induction pairs generalizing t u with
  | nil => exact h
  | cons pair rest ih => exact ih (h.set ht pair.1 pair.2) (ht.set pair.1 pair.2)

/-- Code that writes one entry of a table under its key. -/
inductive Write where
  /-- Under a constant text. -/
  | text (name : String) (value : Code .value)
  /-- Under a key that is computed. -/
  | computed (key value : Code .value)
  /-- Under the next number. -/
  | numbered (value : Code .value)

namespace Write

/-- How a constructor of a layout carries out a write: through a slot, if the key has one. -/
def init (l : Layout) : Write → Init
  | .text name value =>
    match l.slotOf? name with
    | some slot => .slot slot value
    | none => .named name value
  | .computed key value => .keyed key value
  | .numbered value => .positional value

/-- Run some writes from left to right as far as their keys and values; `next` is the next
number. -/
def evalAll (caller : Caller) (frame : Frame) : List Write → Int64 → Run (List (Key × Value))
  | [], _ => pure []
  | .text name value :: rest, next => do
    let v ← eval caller frame value
    let pairs ← evalAll caller frame rest next
    return (.str name, v) :: pairs
  | .computed key value :: rest, next => do
    let k ← eval caller frame key
    let v ← eval caller frame value
    let place ← Run.ofExcept (Key.ofValue k)
    let pairs ← evalAll caller frame rest next
    return (place, v) :: pairs
  | .numbered value :: rest, next => do
    let v ← eval caller frame value
    let pairs ← evalAll caller frame rest (next + 1)
    return (.int next, v) :: pairs

variable {caller : Caller} {frame : Frame} {l : Layout}

/-- A write under a constant text sets that key, be it through a slot or not. -/
theorem evalInits_text {t : Table} (ht : t.Regular) (hlayout : t.layout = l) (name : String)
    (value : Code .value) (inits : List Init) (next : Int64) :
    evalInits caller frame (init l (.text name value) :: inits) next t = (do
      let v ← eval caller frame value
      evalInits caller frame inits next (t.set (.str name) v)) := by
  have hinit : init l (.text name value) = Emit.namedInit l name ⟨.unknown, .value, value⟩ := rfl
  rw [hinit, evalInits_namedInit ht hlayout, Emitted.run_value]

/-- Filling the slots of a table is filling the table. -/
theorem evalInits_init (ws : List Write) (next : Int64) {t : Table} (ht : t.Regular)
    (hlayout : t.layout = l) :
    evalInits caller frame (ws.map (init l)) next t = t.fill <$> evalAll caller frame ws next := by
  induction ws generalizing next t with
  | nil => rw [List.map_nil, evalInits, evalAll, map_pure, Table.fill, List.foldl_nil]
  | cons w ws ih =>
    -- whatever the write is, the rest fills the table that it leaves
    have hrest (next : Int64) (key : Key) (v : Value) :
        evalInits caller frame (ws.map (init l)) next (t.set key v) =
          t.fill <$> (do
            let pairs ← evalAll caller frame ws next
            return (key, v) :: pairs) := by
      rw [ih next (ht.set key v) ((Table.layout_set ..).trans hlayout), map_eq_pure_bind, map_bind]
      refine bind_congr fun pairs => ?_
      rw [map_pure]
      rfl
    cases w with
    | text name value =>
      rw [List.map_cons, evalInits_text ht hlayout, evalAll, map_bind]
      exact bind_congr fun v => hrest next _ v
    | computed key value =>
      rw [List.map_cons, init, evalInits, evalAll, map_bind]
      refine bind_congr fun k => ?_
      rw [map_bind]
      refine bind_congr fun v => ?_
      rw [map_bind]
      exact bind_congr fun place => hrest next place v
    | numbered value =>
      rw [List.map_cons, init, evalInits, evalAll, map_bind]
      exact bind_congr fun v => hrest (next + 1) _ v

end Write

/-- Emit the entries of a table constructor as writes to keys. -/
def Emit.writes (scope : Scope) : List Entry → Emit (List Write)
  | [] => pure []
  | .named name value :: rest => do
    let v ← expr scope value
    let ws ← writes scope rest
    return .text name v.boxed :: ws
  | .keyed key value :: rest => do
    match key.constantKey? with
    | some name =>
      let v ← expr scope value
      let ws ← writes scope rest
      return .text name v.boxed :: ws
    | none =>
      let k ← expr scope key
      let v ← expr scope value
      let ws ← writes scope rest
      return .computed k.boxed v.boxed :: ws
  | .positional value :: rest => do
    let v ← expr scope value
    let ws ← writes scope rest
    return .numbered v.boxed :: ws

/-- The code of the entries of a constructor is that of their writes. -/
theorem Emit.inits_eq (scope : Scope) (l : Layout) (entries : List Entry) :
    inits scope l entries = List.map (Write.init l) <$> writes scope entries := by
  induction entries with
  | nil => rw [inits, writes, map_pure, List.map_nil]
  | cons entry rest ih =>
    -- one more write comes before those of the rest
    have hrest (w : Write) :
        (do
          let is ← inits scope l rest
          return w.init l :: is) =
        List.map (Write.init l) <$> (do
          let ws ← writes scope rest
          return w :: ws) := by
      rw [ih, bind_map_left, map_bind]
      refine bind_congr fun ws => ?_
      rw [map_pure, List.map_cons]
    cases entry with
    | named name value =>
      rw [inits, writes, map_bind]
      exact bind_congr fun v => hrest (.text name v.boxed)
    | keyed key value =>
      rw [inits, writes]
      cases key.constantKey? with
      | some name =>
        dsimp only
        rw [map_bind]
        exact bind_congr fun v => hrest (.text name v.boxed)
      | none =>
        dsimp only
        rw [map_bind]
        refine bind_congr fun k => ?_
        rw [map_bind]
        exact bind_congr fun v => hrest (.computed k.boxed v.boxed)
    | positional value =>
      rw [inits, writes, map_bind]
      exact bind_congr fun v => hrest (.numbered v.boxed)

/-! ## Fields -/

/-- A field that is found is a slot of its key in a compiled layout, and finding it loses
nothing. -/
theorem Machine.Sound.field? {m m₁ : Machine} (h : m.Sound) {engine : EngineId} {type : Ty}
    (htype : type.Has m.shapes) {key : Expr} {f : Field} {rest : Array Value × Array SiteId}
    (hrun : (Compile.emit engine (Emit.field? type key)).run.run m = (.ok (some f, rest), m₁)) :
    m.Advances m₁ ∧ key = .literal (.str f.key) ∧ ∃ l, l.Compiled m₁.shapes ∧ f.In l := by
  have hfind : Emit.Yields m.program (Compile.start m engine) (Emit.field? type key) True _ :=
    Emit.yields_field? h.knowledge htype key
  have hyields := Compile.yields_emit h engine hfind
  have hev := hyields.evolves
  have hpost := hyields.post (congrArg Prod.fst hrun)
  rw [hrun] at hev hpost
  obtain ⟨s, hfield, hknowledge, -⟩ := hpost
  obtain ⟨hkey, l, hl, hin⟩ := hfield f rfl
  rw [hknowledge] at hl
  exact ⟨.of_evolves hev.evolves, Expr.eq_of_constantKey? hkey, l, hl, hin⟩

/-- **Slot access is keyed access.**  In every machine, a field that is found for a type and a
constant key has that key; and then and ever after, reading and writing any value through the
field gives what reading and writing it by the key gives, and leaves the same heap.  The code
of a table constructor writes its entries in order; running it makes a table that reads as
the empty table does after these writes, done by key. -/
theorem access_of_becomes {m : Machine} (hm : Machine.empty.Becomes m) :
    (∀ (engine : EngineId) (type : Ty) (key : Expr) (f : Field)
      (rest : Array Value × Array SiteId) (m₁ : Machine), type.Has m.shapes →
      (Compile.emit engine (Emit.field? type key)).run.run m = (.ok (some f, rest), m₁) →
      key = .literal (.str f.key) ∧ ∀ m', m₁.Becomes m' → ∀ target v : Value,
        loadField m'.heap f target = indexValue m'.heap target (.str f.key) ∧
        storeField m'.heap f target v = storeIndex m'.heap target (.str f.key) v) ∧
    (∀ (scope : Scope) (shape : ShapeId) (entries : List Entry),
      Emit.expr scope (.table shape entries) = (do
        scope.announce (Expr.table shape entries).form
        let l ← Emit.layout shape
        let ws ← Emit.writes scope entries
        return ⟨← Emit.learn (Learn.tableType shape), .value, .table l (ws.map (Write.init l))⟩)) ∧
    ∀ (l : Layout) (ws : List Write),
      (∀ (caller : Caller) (frame : Frame),
        eval caller frame (.table l (ws.map (Write.init l))) = (do
          let pairs ← Write.evalAll caller frame ws 1
          Run.newTable ((Table.ofLayout l).fill pairs))) ∧
      ∀ (pairs : List (Key × Value)) (key : Key),
        ((Table.ofLayout l).fill pairs).get key = (Table.empty.fill pairs).get key := by
  have hsound : m.Sound := (hm.advances Machine.sound_empty).sound
  refine ⟨fun engine type key f rest m₁ htype hrun => ?_, fun scope shape entries => ?_,
    fun l ws => ⟨fun caller frame => ?_, fun pairs key => ?_⟩⟩
  · obtain ⟨hadvances, hkey, l, hl, hin⟩ := hsound.field? htype hrun
    refine ⟨hkey, fun m' hlater target v => ?_⟩
    obtain ⟨hsound', hgrows⟩ := hlater.advances hadvances.sound
    have hl' := hl.mono hgrows.shapes hadvances.sound.forest hsound'.forest
    exact ⟨loadField_eq hsound'.laid hl' hin target, storeField_eq hsound'.laid hl' hin target v⟩
  · rw [Emit.expr]
    refine bind_congr fun _ => bind_congr fun l => ?_
    rw [Emit.inits_eq, bind_map_left]
  · have hlayout : (Table.ofLayout l).layout = l := rfl
    rw [eval, Write.evalInits_init ws 1 (Table.regular_ofLayout l) hlayout, bind_map_left]
  · exact (((Table.Same.ofLayout l).fill (Table.regular_ofLayout l) pairs).get key).symm

/-- The key of a shape is found at its slot, and the slot is the key from then on. -/
theorem access_of_becomes_key :
    let ops := [.changeShape .make, .changeShape (.amend 1 "x" .integer), .addTable none]
    let m := Operation.run .empty ops
    let found := (Compile.emit 1 (Emit.field? (.tableOf 1) (.literal (.str "x")))).run.run m
    Machine.empty.Becomes m ∧ found.1 = .ok (some ⟨1, 0, "x"⟩, #[], #[]) ∧
    ∀ m', found.2.Becomes m' → ∀ target v : Value,
      loadField m'.heap ⟨1, 0, "x"⟩ target = indexValue m'.heap target (.str "x") ∧
      storeField m'.heap ⟨1, 0, "x"⟩ target v = storeIndex m'.heap target (.str "x") v := by
  intro ops m found
  have hvalid : Operation.AllValid .empty ops := by
    refine ⟨?_, ?_, ?_, trivial⟩
    · show ShapeOperation.Valid _ .make
      decide
    · show ShapeOperation.Valid _ (.amend 1 "x" .integer)
      decide
    · intro id hid
      cases hid
  have hm : Machine.empty.Becomes m :=
    .operate (.refl _) (.of_operations (fun _ _ => trivial) hvalid)
  have hhas : m.shapes.Has 1 := by decide
  have hfound : found.1 = .ok (some ⟨1, 0, "x"⟩, #[], #[]) := rfl
  exact ⟨hm, hfound, ((access_of_becomes hm).1 1 (.tableOf 1) (.literal (.str "x")) _ _ found.2 hhas
    (Prod.ext hfound rfl)).2⟩

end AdaptiveScript
