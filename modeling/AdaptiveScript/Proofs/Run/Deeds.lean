import AdaptiveScript.Proofs.Run.CallMoves

/-!
# What a host does, and chronicles of it

Besides operations, a host can ask the cache of a prototype for a signature that it made up, and
run a specialization that it holds (`Deed`).  A deed is valid if the engines, sites and code that
it refers to exist.  No more is asked here, and every valid deed but one is a sequence of moves
(`Deed.moves`); the exception is to link a site by hand, which enters the linker without a call.

What happens over time is written down in a chronicle (`Chronicle`): a list of events, between
which only idle things happen.  A chronicle is built up from its start, so what is kept by idle
things and by events holds at its end, and a part of it up to some event is a chronicle too
(`Chronicle.upTo`), so the same holds before every event on the way.  The events are those that
the machine itself remembers, if it remembers each of them and nothing else
(`Chronicle.remembered`).
-/

namespace AdaptiveScript

/-! ## Chronicles -/

/-- Events lead from one machine to another, and between them only idle things happen. -/
inductive Chronicle {E : Type} (idle : Machine → Machine → Prop)
    (occurs : Machine → E → Machine → Prop) (m : Machine) : List E → Machine → Prop
  | start : Chronicle idle occurs m [] m
  | idle {log : List E} {m₁ m' : Machine} : Chronicle idle occurs m log m₁ → idle m₁ m' →
    Chronicle idle occurs m log m'
  | event {log : List E} {m₁ m' : Machine} {e : E} : Chronicle idle occurs m log m₁ →
    occurs m₁ e m' → Chronicle idle occurs m (log ++ [e]) m'

/-- The state after the last of some events, or a given one if there was none. -/
def lastState {E : Type} (after : E → State) (start : State) (log : List E) : State :=
  (log.getLast?.map after).getD start

namespace Chronicle

variable {E : Type} {idle : Machine → Machine → Prop} {occurs : Machine → E → Machine → Prop}

theorem trans {a b c : Machine} {log log' : List E} (hab : Chronicle idle occurs a log b)
    (hbc : Chronicle idle occurs b log' c) : Chronicle idle occurs a (log ++ log') c := by
  induction hbc with
  | start => simpa using hab
  | idle _ hidle ih => exact ih.idle hidle
  | event _ hoccurs ih =>
    rw [← List.append_assoc]
    exact ih.event hoccurs

theorem of_idle {m m' : Machine} (h : idle m m') : Chronicle idle occurs m [] m' :=
  start.idle h

theorem of_event {m m' : Machine} {e : E} (h : occurs m e m') : Chronicle idle occurs m [e] m' :=
  start.event h

/-- Up to each event of a chronicle there is a chronicle. -/
theorem upTo {m m' : Machine} {log : List E} (h : Chronicle idle occurs m log m') :
    ∀ {earlier later : List E} {e : E}, log = earlier ++ e :: later →
      ∃ m₁ m₂, Chronicle idle occurs m earlier m₁ ∧ occurs m₁ e m₂ := by
  induction h with
  | start =>
    intro earlier later e heq
    simp at heq
  | idle _ _ ih => exact ih
  | @event log m₁ m₂ last hbefore hoccurs ih =>
    intro earlier later e heq
    rcases List.eq_nil_or_concat later with rfl | ⟨rest, final, rfl⟩
    · obtain ⟨rfl, rfl⟩ : log = earlier ∧ last = e := by simpa using heq
      exact ⟨m₁, m₂, hbefore, hoccurs⟩
    · have hconcat : log ++ [last] = (earlier ++ e :: rest) ++ [final] := by
        simpa using heq
      exact ih (List.append_inj' hconcat rfl).1

/-- A list that idle things leave as it is, and to which events are added, holds the events. -/
theorem remembered {m m' : Machine} {log : List E} (h : Chronicle idle occurs m log m')
    (list : Machine → List E) (hidle : ∀ {a b}, idle a b → list b = list a)
    (hoccurs : ∀ {a e b}, occurs a e b → list b = list a ++ [e]) : list m' = list m ++ log := by
  induction h with
  | start => exact (List.append_nil _).symm
  | idle _ hrest ih => rw [hidle hrest, ih]
  | event _ hlast ih => rw [hoccurs hlast, ih, List.append_assoc]

/-- Since the last event only idle things have happened. -/
theorem since {m m' : Machine} {log : List E} (h : Chronicle idle occurs m log m')
    {R : State → State → Prop} (hrefl : ∀ s, R s s) (htrans : ∀ {a b c}, R a b → R b c → R a c)
    (hidle : ∀ {a b : Machine}, idle a b → R a b) {after : E → State}
    (hoccurs : ∀ {a e} {b : Machine}, occurs a e b → after e = b) :
    R (lastState after m log) m' := by
  induction h with
  | start => exact hrefl _
  | idle _ hrest ih => exact htrans ih (hidle hrest)
  | event _ hlast _ =>
    rw [lastState, List.getLast?_concat, Option.map_some, Option.getD_some, hoccurs hlast]
    exact hrefl _

end Chronicle

/-! ## Deeds -/

/-- What a host can do to a machine. -/
inductive Deed where
  /-- Carry out an operation. -/
  | operate (op : Operation)
  /-- Ask the cache of a prototype for a signature. -/
  | fetch (engine : EngineId) (proto : PrototypeRef) (signature : Signature)
  /-- Run a specialization over cells. -/
  | enter (depth : Nat) (engine : EngineId) (spec : Specialization) (cells : List CellId)
    (args : List Value)

/-- The engines and sites that an operation refers to exist. -/
def Operation.Placed (m : Machine) : Operation → Prop
  | .specialize engine _ _ _ _ => engine < m.engines.size
  | .addFunction _ f => ∀ c, f = .closure c → c.engine < m.engines.size
  | .link engine site _ _ => engine < m.engines.size ∧ 0 < site ∧ site ≤ m.sites.sites.size
  | .call _ request => request.Placed m
  | _ => True

/-- An operation links a site by hand. -/
def Operation.isLink : Operation → Bool
  | .link _ _ _ _ => true
  | _ => false

namespace Deed

/-- The machine after a deed. -/
def apply (m : Machine) : Deed → Machine
  | .operate op => op.apply m
  | .fetch engine ref signature =>
    match m.program.prototype? ref with
    | some proto => ((Compile.specialize engine proto signature).run.run m).2
    | none => m
  | .enter depth engine spec cells args =>
    ((spec.enter (answer depth) depth engine cells args).run.run m).2

/-- The engines, sites and code that a deed refers to exist. -/
def Valid (m : Machine) : Deed → Prop
  | .operate op => op.Placed m
  | .fetch engine _ _ => engine < m.engines.size
  | .enter _ engine spec _ _ => engine < m.engines.size ∧ ∃ cache ∈ m.caches, spec ∈ cache.entries

/-- The machine after some deeds. -/
def run (m : Machine) (deeds : List Deed) : Machine :=
  deeds.foldl apply m

/-- What each of some deeds refers to exists by then. -/
def AllValid (m : Machine) : List Deed → Prop
  | [] => True
  | d :: deeds => d.Valid m ∧ AllValid (d.apply m) deeds

/-- A deed links a site by hand. -/
def isLink : Deed → Bool
  | .operate op => op.isLink
  | _ => false

end Deed

/-- **The step.** An operation is a sequence of moves, if it does not link a site by hand. -/
theorem Operation.moves {m : Machine} (h : m.Housed) {op : Operation} (hplaced : op.Placed m)
    (hlink : op.isLink = false) : m.Moves (op.apply m) := by
  cases op with
  | addPrototype name params locals upvalues body =>
    exact .of_calm (.addPrototype name params locals upvalues body)
  | addEngine config => exact .of_calm (.addEngine config)
  | dropEngine engine => exact .of_calm (.modifyEngine engine fun _ => rfl)
  | setGlobal engine name v => exact .of_calm (.modifyEngine engine fun _ => rfl)
  | registerShape engine shape => exact .of_calm (.modifyEngine engine fun _ => rfl)
  | changeShape op => exact .of_calm (.setKnowledge _)
  | findReturns maxIterations proto => exact .of_calm (.setKnowledge _)
  | specialize engine proto args upvalues truncate =>
    obtain ⟨result, m', hrun, hobtains⟩ :=
      Linking.obtains_specialize h engine proto args upvalues truncate
    rw [apply, hrun]
    exact hobtains.moves hplaced
  | addCell v => exact .of_calm (.setHeap rfl)
  | setCell cell v => exact .of_calm (.setHeap rfl)
  | addTable shape => cases shape <;> exact .of_calm (.setHeap rfl)
  | setTable table key v => exact .of_calm (.setHeap rfl)
  | addFunction name f => exact .of_calm (.addFunction name hplaced)
  | addSite static truncate => exact .of_calm (.addSite static truncate)
  | link engine site callee args => cases hlink
  | call depth request => exact moves_answer depth m request h hplaced

/-- If each move has a chronicle, then so has a sequence of moves. -/
theorem Machine.Moves.exists_chronicle {E : Type} {idle : Machine → Machine → Prop}
    {occurs : Machine → E → Machine → Prop}
    (hmove : ∀ {m m' : Machine}, m.Housed → m.Move m' → ∃ log, Chronicle idle occurs m log m')
    {m m' : Machine} (h : m.Housed) (hmoves : m.Moves m') :
    ∃ log, Chronicle idle occurs m log m' := by
  induction hmoves with
  | refl => exact ⟨[], .start⟩
  | tail hbefore hlast ih =>
    obtain ⟨log, hlog⟩ := ih
    obtain ⟨last, hlast⟩ := hmove (Moves.keeps hbefore h).1 hlast
    exact ⟨log ++ last, hlog.trans hlast⟩

namespace Deed

variable {m : Machine}

theorem moves (h : m.Housed) {d : Deed} (hvalid : d.Valid m) (hlink : d.isLink = false) :
    m.Moves (d.apply m) := by
  cases d with
  | operate op => exact op.moves h hvalid hlink
  | fetch engine ref signature =>
    rw [apply]
    cases hproto : m.program.prototype? ref with
    | none => exact .refl
    | some proto =>
      exact .single (.ask hvalid (.intro (h.prototype?_ref hproto) (h.hasCache hproto) rfl))
  | enter depth engine spec cells args =>
    obtain ⟨hengine, cache, hcache, hspec⟩ := hvalid
    obtain ⟨index, hat⟩ := Array.getElem?_of_mem hcache
    exact moves_enter (moves_answer depth) depth ⟨h, hengine, h.specs hat spec hspec⟩ cells args

/-- What the deed of linking a site by hand comes to. -/
theorem links (h : m.Housed) {d : Deed} (hvalid : d.Valid m) (hlink : d.isLink = true) :
    ∃ engine id callee args result, engine < m.engines.size ∧
      Linking.Links m engine id callee args result (d.apply m) := by
  cases d with
  | operate op =>
    cases op with
    | link engine id callee args =>
      exact ⟨engine, id, callee, args, _, hvalid.1, .of_run h rfl⟩
    | _ => cases hlink
  | fetch => cases hlink
  | enter => cases hlink

theorem housed (h : m.Housed) {d : Deed} (hvalid : d.Valid m) : (d.apply m).Housed := by
  cases hlink : d.isLink with
  | false => exact ((d.moves h hvalid hlink).keeps h).1
  | true =>
    obtain ⟨_, _, _, _, _, _, hlinks⟩ := links h hvalid hlink
    exact hlinks.housed h

/-- **The run.** If each deed has a chronicle, then so have all of them together. -/
theorem exists_chronicle {E : Type} {idle : Machine → Machine → Prop}
    {occurs : Machine → E → Machine → Prop} {P : Deed → Prop}
    (hstep : ∀ {m : Machine} {d : Deed}, m.Housed → d.Valid m → P d →
      ∃ log, Chronicle idle occurs m log (d.apply m)) {deeds : List Deed} :
    ∀ {m : Machine}, m.Housed → AllValid m deeds → (∀ d ∈ deeds, P d) →
      ∃ log, Chronicle idle occurs m log (run m deeds) := by
  induction deeds with
  | nil => exact fun _ _ _ => ⟨[], .start⟩
  | cons d deeds ih =>
    intro m h hvalid hall
    obtain ⟨first, hfirst⟩ := hstep h hvalid.1 (hall d (by simp))
    obtain ⟨rest, hrest⟩ := ih (housed h hvalid.1) hvalid.2
      fun other hother => hall other (List.mem_cons_of_mem d hother)
    exact ⟨first ++ rest, hfirst.trans hrest⟩

end Deed
end AdaptiveScript
