import LaunchPlan.Proofs.ArgumentView
import Mathlib.Data.List.Nodup

/-!
# Reading the scopes at once

A look-up goes from scope to scope: its own override, the value outside, its own default. Read over
all scopes at once, overrides are searched from the inside out and, where no scope has one, defaults
from the outside in. This holds of every table that a launch can come to, whatever is declared,
refused, entered and left; and a scope that is left takes with it all that was done since it was
entered.
-/

namespace LaunchPlan

namespace Scope

/-- A scope declares the name with this default. -/
def Defaults (s : Scope) (x value : String) : Prop :=
  ∃ d ∈ s.declarations, d.name = x ∧ d.default = some value

/-- A scope declares each name once. -/
def Distinct (s : Scope) : Prop :=
  (s.declarations.map Declaration.name).Nodup

theorem default?_eq_some_iff {s : Scope} (h : s.Distinct) {x value : String} :
    s.default? x = some value ↔ s.Defaults x value := by
  rw [default?, declaration?, Option.bind_eq_some_iff]
  constructor
  · rintro ⟨d, hfind, hvalue⟩
    have hname : d.name = x := by simpa using List.find?_some hfind
    exact ⟨d, List.mem_of_find?_eq_some hfind, hname, hvalue⟩
  · rintro ⟨d, hd, rfl, hvalue⟩
    cases hfind : s.declarations.find? fun e => e.name = d.name with
    | none =>
      have hnone := List.find?_eq_none.1 hfind d hd
      simp at hnone
    | some e =>
      have hname : e.name = d.name := by simpa using List.find?_some hfind
      have hmem : e ∈ s.declarations := List.mem_of_find?_eq_some hfind
      obtain rfl : e = d := List.inj_on_of_nodup_map h hmem hd hname
      exact ⟨e, rfl, hvalue⟩

theorem default?_eq_none_iff {s : Scope} (h : s.Distinct) {x : String} :
    s.default? x = none ↔ ∀ value, ¬ s.Defaults x value := by
  rw [Option.eq_none_iff_forall_ne_some]
  exact forall_congr' fun value => not_congr (default?_eq_some_iff h)

/-- Of these scopes, from the outside in, the innermost that overrides the name gives it the value. -/
def InnermostOverride (x value : String) (scopes : List Scope) : Prop :=
  ∃ outer s inner, scopes = outer ++ s :: inner ∧ s.override? x = some value ∧
    ∀ i ∈ inner, i.override? x = none

/-- Of these scopes, from the outside in, the outermost with a default for the name has the value as
its default. -/
def OutermostDefault (x value : String) (scopes : List Scope) : Prop :=
  ∃ outer s inner, scopes = outer ++ s :: inner ∧ s.Defaults x value ∧
    ∀ o ∈ outer, ∀ other, ¬ o.Defaults x other

/-- A look-up finds the first override from the inside out, or else the first default from the
outside in. -/
theorem lookup_eq_findSome? (x : String) (s : Scope) (enclosing : List Scope) :
    lookup x s enclosing =
      ((s :: enclosing).findSome? (·.override? x)).or
        ((s :: enclosing).reverse.findSome? (·.default? x)) := by
  induction enclosing generalizing s with
  | nil => cases hs : s.override? x <;> simp [lookup, hs]
  | cons outer rest ih =>
    have hdefault : (s :: outer :: rest).reverse.findSome? (·.default? x) =
        ((outer :: rest).reverse.findSome? (·.default? x)).or (s.default? x) := by
      rw [List.reverse_cons, List.findSome?_append]
      simp
    rw [hdefault, ← Option.or_assoc]
    cases hs : s.override? x with
    | some value => simp [lookup, hs]
    | none => simp [lookup, hs, ih outer, List.findSome?_cons]

theorem findSome?_override_eq_some_iff {x value : String} {scopes : List Scope} :
    scopes.reverse.findSome? (·.override? x) = some value ↔ InnermostOverride x value scopes := by
  rw [List.findSome?_eq_some_iff]
  constructor
  · rintro ⟨inner, s, outer, hsplit, hs, hinner⟩
    have hscopes : scopes = outer.reverse ++ s :: inner.reverse := by
      simpa using congrArg List.reverse hsplit
    exact ⟨outer.reverse, s, inner.reverse, hscopes, hs, by simpa using hinner⟩
  · rintro ⟨outer, s, inner, rfl, hs, hinner⟩
    exact ⟨inner.reverse, s, outer.reverse, by simp, hs, by simpa using hinner⟩

theorem findSome?_default_eq_some_iff {x value : String} {scopes : List Scope}
    (h : ∀ s ∈ scopes, s.Distinct) :
    scopes.findSome? (·.default? x) = some value ↔ OutermostDefault x value scopes := by
  rw [List.findSome?_eq_some_iff]
  constructor
  · rintro ⟨outer, s, inner, rfl, hs, houter⟩
    refine ⟨outer, s, inner, rfl, (default?_eq_some_iff (h s (by simp))).1 hs, fun o ho => ?_⟩
    exact (default?_eq_none_iff (h o (by simp [ho]))).1 (houter o ho)
  · rintro ⟨outer, s, inner, rfl, hs, houter⟩
    refine ⟨outer, s, inner, rfl, (default?_eq_some_iff (h s (by simp))).2 hs, fun o ho => ?_⟩
    exact (default?_eq_none_iff (h o (by simp [ho]))).2 (houter o ho)

end Scope

namespace ArgumentTable

/-- The scopes from the outermost to the current one. -/
def scopes (t : ArgumentTable) : List Scope :=
  (t.current :: t.enclosing).reverse

/-! ## What is done to a table -/

/-- A change of a table. A declaration may be refused, and the outermost scope is never left. -/
inductive Change
  | declare (d : Declaration)
  | enter (label : String) (overrides : List (String × String))
  | setOverride (name value : String)
  | leave

/-- The table after a change. Of the overrides that a scope is entered with, the last of a name
counts. -/
def apply (t : ArgumentTable) : Change → ArgumentTable
  | .declare d => (t.declare d).2
  | .enter label overrides => t.enter label (.ofPairs overrides)
  | .setOverride name value => t.setOverride name value
  | .leave => t.leave

def after (t : ArgumentTable) (changes : List Change) : ArgumentTable :=
  changes.foldl apply t

theorem after_append (t : ArgumentTable) (changes more : List Change) :
    t.after (changes ++ more) = (t.after changes).after more :=
  List.foldl_append

/-- All scopes declare each name once. -/
def Distinct (t : ArgumentTable) : Prop :=
  ∀ s ∈ t.current :: t.enclosing, s.Distinct

theorem distinct_ofOverrides (overrides : Bindings) : (ofOverrides overrides).Distinct := by
  intro s hs
  obtain rfl := List.mem_singleton.1 hs
  exact List.nodup_nil

theorem Distinct.push {t : ArgumentTable} (h : t.Distinct) {d : Declaration}
    (hd : t.isDeclared d.name = false) : (t.push d).Distinct := by
  intro s hs
  rcases List.mem_cons.1 hs with rfl | hs
  · have hnew := isDeclared_eq_false.1 hd
    change ((t.declarations ++ [d]).map Declaration.name).Nodup
    rw [List.map_append, List.map_singleton, ← List.concat_eq_append]
    exact (h t.current (by simp)).concat hnew
  · exact h s (List.mem_cons_of_mem _ hs)

/-- Every change keeps the names of a scope distinct, also a declaration that is refused. -/
theorem Distinct.apply {t : ArgumentTable} (h : t.Distinct) (change : Change) :
    (t.apply change).Distinct := by
  cases change with
  | declare d =>
    rw [ArgumentTable.apply]
    cases hd : t.isDeclared d.name with
    | true =>
      rw [declare_again hd]
      exact h
    | false =>
      rw [declare_new hd]
      exact h.push hd
  | enter label overrides =>
    intro s hs
    rcases List.mem_cons.1 hs with rfl | hs
    · exact List.nodup_nil
    · exact h s hs
  | setOverride name value =>
    intro s hs
    rcases List.mem_cons.1 hs with rfl | hs
    · exact h t.current (by simp)
    · exact h s (List.mem_cons_of_mem _ hs)
  | leave =>
    obtain ⟨current, _ | ⟨outer, rest⟩⟩ := t
    · exact h
    · intro s hs
      exact h s (List.mem_cons_of_mem _ hs)

theorem Distinct.after {t : ArgumentTable} (h : t.Distinct) (changes : List Change) :
    (t.after changes).Distinct := by
  induction changes generalizing t with
  | nil => exact h
  | cons change rest ih => exact ih (h.apply change)

/-! ## Scopes that are entered and left -/

/-- How many of the scopes that were entered on the way are still open, where `n` were before; none
when a scope is left that was not entered on the way. -/
def Change.opens : (n : Nat) → Change → Option Nat
  | n, .enter _ _ => some (n + 1)
  | n + 1, .leave => some n
  | 0, .leave => none
  | n, .declare _ => some n
  | n, .setOverride _ _ => some n

/-- All scopes that the changes enter they leave again, and no others. -/
def Matched (changes : List Change) : Prop :=
  changes.foldlM Change.opens 0 = some 0

instance (changes : List Change) : Decidable (Matched changes) :=
  inferInstanceAs (Decidable (_ = _))

/-- Around `n` scopes the table has these. -/
def Above (n : Nat) (base : List Scope) (t : ArgumentTable) : Prop :=
  ∃ inner, inner.length = n ∧ t.enclosing = inner ++ base

/-- A change leaves the scopes alone around those that were entered on the way. -/
theorem Above.apply {n m : Nat} {base : List Scope} {t : ArgumentTable} {change : Change}
    (h : Above n base t) (hopens : change.opens n = some m) : Above m base (t.apply change) := by
  obtain ⟨inner, hlength, hinner⟩ := h
  cases change with
  | declare d =>
    obtain rfl : n = m := by cases n <;> simpa [Change.opens] using hopens
    have hsame : (t.apply (.declare d)).enclosing = t.enclosing := by
      obtain ⟨ds, hds⟩ := t.grows_declare d
      rw [ArgumentTable.apply, hds]
    exact ⟨inner, hlength, hsame.trans hinner⟩
  | enter label overrides =>
    obtain rfl : n + 1 = m := by cases n <;> simpa [Change.opens] using hopens
    exact ⟨t.current :: inner, by simp [hlength], by simp [ArgumentTable.apply, enter, hinner]⟩
  | setOverride name value =>
    obtain rfl : n = m := by cases n <;> simpa [Change.opens] using hopens
    exact ⟨inner, hlength, hinner⟩
  | leave =>
    cases inner with
    | nil =>
      subst hlength
      cases hopens
    | cons s inner =>
      subst hlength
      obtain rfl : inner.length = m := by simpa [Change.opens] using hopens
      exact ⟨inner, rfl, by simp [ArgumentTable.apply, leave, hinner]⟩

theorem Above.after {n m : Nat} {base : List Scope} {t : ArgumentTable} {changes : List Change}
    (h : Above n base t) (hopens : changes.foldlM Change.opens n = some m) :
    Above m base (t.after changes) := by
  induction changes generalizing n t with
  | nil =>
    obtain rfl : n = m := by simpa using hopens
    exact h
  | cons change rest ih =>
    rw [List.foldlM_cons, Option.bind_eq_bind, Option.bind_eq_some_iff] at hopens
    obtain ⟨k, hk, hrest⟩ := hopens
    exact ih (h.apply hk) hrest

/-- Nothing is left of what is done in a scope between entering and leaving it. -/
theorem after_entered (t : ArgumentTable) (label : String) (overrides : List (String × String))
    {between : List Change} (h : Matched between) :
    t.after (.enter label overrides :: between ++ [.leave]) = t := by
  have hentered : Above 0 (t.current :: t.enclosing) (t.apply (.enter label overrides)) :=
    ⟨[], rfl, rfl⟩
  obtain ⟨inner, hnone, henclosing⟩ := hentered.after h
  obtain rfl : inner = [] := List.length_eq_zero_iff.1 hnone
  rw [after_append]
  change ((t.apply (.enter label overrides)).after between).leave = t
  rw [leave, henclosing]
  rfl

/-- In every table that a launch with any overrides can come to, a name has the value that the
innermost scope with an override for it gives it; where no scope overrides it, the default of the
outermost scope that declares it with one; and no value where no scope has either. Entering a scope
and leaving it again gives back the table, whatever is done in between. -/
theorem lookup_flat (overrides : Bindings) (changes : List Change) :
    let t := (ofOverrides overrides).after changes
    (∀ x value, t.lookup x = some value ↔
      Scope.InnermostOverride x value t.scopes ∨
        (∀ s ∈ t.scopes, s.override? x = none) ∧ Scope.OutermostDefault x value t.scopes) ∧
    (∀ x, t.lookup x = none ↔
      ∀ s ∈ t.scopes, s.override? x = none ∧ ∀ value, ¬ s.Defaults x value) ∧
    ∀ label given between, Matched between →
      t.after (.enter label given :: between ++ [.leave]) = t := by
  intro t
  have hdistinct : ∀ s ∈ t.scopes, s.Distinct := by
    intro s hs
    exact (distinct_ofOverrides overrides).after changes s (List.mem_reverse.1 hs)
  have hlookup : ∀ x, t.lookup x = (t.scopes.reverse.findSome? (·.override? x)).or
      (t.scopes.findSome? (·.default? x)) := by
    intro x
    rw [scopes, List.reverse_reverse]
    exact Scope.lookup_eq_findSome? x t.current t.enclosing
  have hno : ∀ x, t.scopes.reverse.findSome? (·.override? x) = none ↔
      ∀ s ∈ t.scopes, s.override? x = none := by
    intro x
    rw [List.findSome?_eq_none_iff]
    simp
  refine ⟨fun x value => ?_, fun x => ?_, fun label given between h => after_entered t label given h⟩
  · rw [hlookup, Option.or_eq_some_iff, hno, Scope.findSome?_override_eq_some_iff,
      Scope.findSome?_default_eq_some_iff hdistinct]
  · rw [hlookup, Option.or_eq_none_iff, hno, List.findSome?_eq_none_iff, ← forall₂_and]
    refine forall₂_congr fun s hs => and_congr_right fun _ => ?_
    exact Scope.default?_eq_none_iff (hdistinct s hs)

/-- A launch in which the world is declared in two scopes, refused once, and overridden in the inner
one, which is left; and the outermost scope is left in vain. -/
def worldChanges : List Change :=
  [.leave, .declare { name := "world" }, .enter "gazebo" [("gui", "true"), ("gui", "false")],
    .declare { name := "world", default := some "empty" },
    .declare { name := "world", default := some "hotel" }, .enter "robot" [],
    .declare { name := "world", default := some "maze" }]

/-- What is done in the scope of a camera, which includes a description of its own. -/
def cameraChanges : List Change :=
  [.setOverride "world" "lab", .enter "lens" [("world", "dark")], .declare { name := "gui" }, .leave,
    .declare { name := "world", choices := some ["maze"] }]

theorem world_flat :
    let t := (ofOverrides [("rate", "10")]).after worldChanges
    t.lookup "world" = some "empty" ∧
      (Scope.InnermostOverride "world" "empty" t.scopes ∨
        (∀ s ∈ t.scopes, s.override? "world" = none) ∧
          Scope.OutermostDefault "world" "empty" t.scopes) ∧
      Matched cameraChanges ∧
      t.after (.enter "camera" [("world", "hall")] :: cameraChanges ++ [.leave]) = t := by
  obtain ⟨hsome, -, hentered⟩ := lookup_flat [("rate", "10")] worldChanges
  have hworld : ((ofOverrides [("rate", "10")]).after worldChanges).lookup "world" = some "empty" := by
    decide
  have hmatched : Matched cameraChanges := by decide
  exact ⟨hworld, (hsome "world" "empty").1 hworld, hmatched, hentered _ _ _ hmatched⟩

end ArgumentTable

end LaunchPlan
