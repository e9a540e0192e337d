import AdaptiveScript.Linking.Linker
import Mathlib.Data.List.Induction

/-!
# What the policy of a call site comes to

A call site keeps two counters and a flag.  The flag says whether the types of the arguments
given are trusted; it is stored, and only looked at again by a link that changes the types.
Here links are published at a fresh site one after another, each under the plan for the
types that its arguments had (`Site.publishAll`), and the counters and the flag are read off
the list of links.

`History.Accounts` says what a history tells about the forms of the links so far, where the
form of a link is its argument types with their source.  One published link keeps it
(`History.Accounts.record`), so it holds of every site (`accounts_publishAll`).

* `policy_of_published`: the counters count links and changes of form, run-time types are
  trusted while there were fewer changes than the limit allows, and the next plan follows
  from the two counters.  A limit of zero changes allows as much as a limit of one: nothing
  is decided before the first change.
-/

namespace AdaptiveScript
namespace Linking

/-- The argument types of a link and their source. -/
abbrev Form := TypeSource × List Ty

/-- The form of the links made under a plan. -/
def Plan.form (plan : Plan) : Form :=
  (plan.source, plan.types)

/-- How often neighbours in a list differ. -/
def changes {α : Type} [DecidableEq α] : List α → Nat
  | a :: b :: rest => (if a = b then 0 else 1) + changes (b :: rest)
  | _ => 0

theorem changes_concat {α : Type} [DecidableEq α] (as : List α) (a : α) :
    changes (as ++ [a]) =
      changes as + match as.getLast? with
        | some b => if b = a then 0 else 1
        | none => 0 := by
  induction as with
  | nil => rfl
  | cons b rest ih =>
    cases rest with
    | nil => simp [changes]
    | cons c rest =>
      have hlast : (b :: c :: rest).getLast? = (c :: rest).getLast? := by simp
      rw [hlast, List.cons_append, List.cons_append, changes, ← List.cons_append, ih, changes]
      omega

theorem changes_le_length {α : Type} [DecidableEq α] : ∀ as : List α, changes as ≤ as.length
  | [] => Nat.le_refl 0
  | [_] => Nat.zero_le 1
  | a :: b :: rest => by
    have hrest := changes_le_length (b :: rest)
    simp only [changes, List.length_cons] at hrest ⊢
    split <;> omega

/-! ## One link -/

theorem succ32_eq {n : Nat} (h : n + 1 < UInt32.size) : succ32 n = n + 1 := by
  unfold succ32
  omega

namespace History

/-- What a history tells about the forms of the links published so far. -/
structure Accounts (history : History) (config : Config) (forms : List Form) : Prop where
  relinks : history.relinks = forms.length
  typeChanges : history.typeChanges = changes forms
  last : history.last = forms.getLast?
  /-- Nothing is decided before the first change, hence the one. -/
  trusting : history.trusting = true ↔ history.typeChanges < max config.typeChangeLimit 1

theorem accounts_fresh (config : Config) : fresh.Accounts config [] :=
  ⟨rfl, rfl, rfl, iff_of_true rfl (Nat.lt_of_lt_of_le Nat.zero_lt_one (Nat.le_max_right _ 1))⟩

theorem changes_concat_form {history : History} {forms : List Form}
    (hlast : history.last = forms.getLast?) (plan : Plan) :
    changes (forms ++ [plan.form]) =
      changes forms + if history.isChange plan = true then 1 else 0 := by
  rw [changes_concat, isChange, hlast]
  cases forms.getLast? with
  | none => rfl
  | some form =>
    by_cases h : form = plan.form
    · simp [h, Plan.form]
    · have hne : form ≠ (plan.source, plan.types) := h
      simp [h, hne]

/-- **The step.** Publishing a link keeps the account, until a counter would overflow. -/
theorem Accounts.record {history : History} {config : Config} {forms : List Form}
    (h : history.Accounts config forms) (hlength : forms.length + 1 < UInt32.size) (plan : Plan)
    (guard : GuardKind) :
    (history.record config plan guard).Accounts config (forms ++ [plan.form]) := by
  have hrelinks : succ32 history.relinks = forms.length + 1 := by
    rw [h.relinks, succ32_eq hlength]
  have hcount : succ32 history.typeChanges = history.typeChanges + 1 := by
    have hle := changes_le_length forms
    rw [h.typeChanges, succ32_eq (by omega)]
  have hchanges := changes_concat_form h.last plan
  have htrusting := h.trusting
  rw [← h.typeChanges] at hchanges
  cases hchange : history.isChange plan with
  | false =>
    rw [hchange] at hchanges
    refine ⟨?_, ?_, ?_, ?_⟩ <;> simp only [History.record, hchange]
    · simpa using hrelinks
    · simpa using hchanges.symm
    · simp [Plan.form]
    · simpa using htrusting
  | true =>
    rw [hchange] at hchanges
    refine ⟨?_, ?_, ?_, ?_⟩ <;> simp only [History.record, hchange, hcount]
    · simpa using hrelinks
    · simpa using hchanges.symm
    · simp [Plan.form]
    · -- a change decides: the flag stays up while the count stays below the limit
      simp only [Bool.and_eq_true, htrusting, Bool.true_and, Bool.not_eq_true',
        decide_eq_false_iff_not, if_true]
      omega

/-- Trust that is lost stays lost. -/
theorem trusting_of_record {history : History} {config : Config} {plan : Plan} {guard : GuardKind}
    (h : (history.record config plan guard).trusting = true) : history.trusting = true := by
  simp only [History.record, Bool.and_eq_true] at h
  exact h.1

end History

/-! ## All links of a site -/

namespace Site

/-- Publish a link under the plan for the types that its arguments had. -/
def publishNext (config : Config) (site : Site) (next : List Ty × Link) : Site :=
  site.publish config (plan site.history config site.static next.1) next.2

/-- Publish links one after another, each with the types that its arguments had. -/
def publishAll (config : Config) (site : Site) (links : List (List Ty × Link)) : Site :=
  links.foldl (publishNext config) site

/-- The forms of links that are published one after another. -/
def forms (config : Config) : Site → List (List Ty × Link) → List Form
  | _, [] => []
  | site, next :: links =>
    (plan site.history config site.static next.1).form ::
      forms config (site.publishNext config next) links

variable {config : Config}

theorem publishAll_concat (site : Site) (links : List (List Ty × Link)) (next : List Ty × Link) :
    site.publishAll config (links ++ [next]) =
      (site.publishAll config links).publishNext config next := by
  simp [publishAll]

theorem static_publishAll (site : Site) (links : List (List Ty × Link)) :
    (site.publishAll config links).static = site.static := by
  induction links generalizing site with
  | nil => rfl
  | cons next links ih => exact ih (site.publishNext config next)

theorem forms_concat (site : Site) (links : List (List Ty × Link)) (next : List Ty × Link) :
    forms config site (links ++ [next]) = forms config site links ++
      [(plan (site.publishAll config links).history config site.static next.1).form] := by
  induction links generalizing site with
  | nil => rfl
  | cons first links ih =>
    rw [List.cons_append, forms, forms, ih]
    rfl

theorem length_forms (site : Site) (links : List (List Ty × Link)) :
    (forms config site links).length = links.length := by
  induction links generalizing site with
  | nil => rfl
  | cons next links ih => rw [forms, List.length_cons, List.length_cons, ih]

/-- **The run.** The history of a site accounts for all links that were published there. -/
theorem accounts_publishAll (static : List Ty) (truncate : Bool) (links : List (List Ty × Link))
    (hlength : links.length < UInt32.size) :
    ((fresh static truncate).publishAll config links).history.Accounts config
      (forms config (fresh static truncate) links) := by
  induction links using List.reverseRecOn with
  | nil => exact History.accounts_fresh config
  | append_singleton links next ih =>
    rw [List.length_append, List.length_singleton] at hlength
    have hbefore := ih (by omega)
    rw [publishAll_concat, forms_concat]
    have hstep := hbefore.record (by rw [length_forms]; exact hlength)
      (plan ((fresh static truncate).publishAll config links).history config static next.1)
      next.2.guard.kind
    rwa [publishNext, static_publishAll]

theorem trusting_of_publishAll {site : Site} {links : List (List Ty × Link)}
    (h : (site.publishAll config links).history.trusting = true) :
    site.history.trusting = true := by
  induction links generalizing site with
  | nil => exact h
  | cons next links ih => exact History.trusting_of_record (ih h)

end Site

theorem identity_plan (history : History) (config : Config) (static runtime : List Ty) :
    (plan history config static runtime).identity = true ↔
      history.relinks < config.relinkLimit := by
  simp only [plan]
  split
  · simp
  · split <;> simp

/-- **The policy of a call site**, in terms of the links published there: `relinks` and
`typeChanges` count the links and those of them that changed the form; run-time types are
trusted while there were fewer changes than the limit, or none; trust that is lost stays
lost; and the next link binds one function while there were fewer links than the limit, with
static types if they are all known, run-time types while they are trusted, and what is known
statically otherwise. -/
theorem policy_of_published (config : Config) (static : List Ty) (truncate : Bool)
    (links : List (List Ty × Link)) (hlength : links.length < UInt32.size) :
    let start := Site.fresh static truncate
    let history := (start.publishAll config links).history
    history.relinks = links.length ∧
    history.typeChanges = changes (Site.forms config start links) ∧
    (history.trusting = true ↔ history.typeChanges < max config.typeChangeLimit 1) ∧
    (history.trusting = false → ∀ more,
      (start.publishAll config (links ++ more)).history.trusting = false) ∧
    ∀ runtime,
      ((plan history config static runtime).identity = true ↔
        history.relinks < config.relinkLimit) ∧
      (plan history config static runtime).form =
        if static.all Ty.isKnown then (.static, static)
        else if history.typeChanges < max config.typeChangeLimit 1 then (.runtime, runtime)
        else (.generic, static) := by
  intro start history
  have haccounts : history.Accounts config (Site.forms config start links) :=
    Site.accounts_publishAll static truncate links hlength
  refine ⟨?_, haccounts.typeChanges, haccounts.trusting, fun hlost more => ?_, fun runtime => ?_⟩
  · rw [haccounts.relinks, Site.length_forms]
  · rw [Bool.eq_false_iff] at hlost ⊢
    intro htrusting
    rw [Site.publishAll, List.foldl_append] at htrusting
    exact hlost (Site.trusting_of_publishAll htrusting)
  · have htrusting := haccounts.trusting
    refine ⟨identity_plan history config static runtime, ?_⟩
    simp only [plan]
    split
    · rfl
    · by_cases h : history.trusting = true
      · rw [if_pos h, if_pos (htrusting.mp h)]
        rfl
      · rw [if_neg h, if_neg (fun hlt => h (htrusting.mpr hlt))]
        rfl

/-- A site that may change once and was given an integer and then a string. -/
theorem policy_of_published_twice :
    let config := { Config.default with relinkLimit := 1, typeChangeLimit := 1 }
    let link : Link := ⟨.identity ⟨1, "f"⟩, .foreign ⟨1, "f"⟩⟩
    let links := [([.integer], link), ([.string], link)]
    let history := ((Site.fresh [.unknown] false).publishAll config links).history
    links.length < UInt32.size ∧ history.relinks = 2 ∧ history.typeChanges = 1 ∧
      history.trusting = false ∧
      (plan history config [.unknown] [.float]).form = (.generic, [.unknown]) := by
  intro config link links history
  have hlength : links.length < UInt32.size := by decide
  obtain ⟨hrelinks, hchanges, htrusting, -, hplan⟩ :=
    policy_of_published config [.unknown] false links hlength
  have hone : history.typeChanges = 1 := hchanges.trans (by decide)
  refine ⟨hlength, hrelinks, hone, ?_, ?_⟩
  · rw [Bool.eq_false_iff, ne_eq, htrusting, hone]
    decide
  · rw [(hplan [.float]).2, hone]
    decide

/-- With a limit of zero changes, a fresh site still takes its first types from the
arguments. -/
example : (plan .fresh { Config.default with typeChangeLimit := 0 } [.unknown] [.float]).form =
    (.runtime, [.float]) := by
  decide

end Linking
end AdaptiveScript
