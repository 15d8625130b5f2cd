import LaunchPlan.Proofs.FlatScopes

/-!
# Declarations that are refused

A declaration of a name that its scope has already changes nothing. One whose value is none of its
choices is refused as well, but it is in the table by then and stays: its name is declared, and may
have got its default as a value. Under all other names the table goes on as if there had been no
declaration, and nothing is left of it once its scope is left.
-/

namespace LaunchPlan

/-- The scopes differ at most in what they declare under the name. -/
structure Scope.SameBut (x : String) (s s' : Scope) : Prop where
  overrides : s.overrides = s'.overrides
  declarations : s.declarations.filter (·.name ≠ x) = s'.declarations.filter (·.name ≠ x)

namespace Scope.SameBut

variable {x : String} {s s' : Scope}

theorem refl (x : String) (s : Scope) : SameBut x s s := ⟨rfl, rfl⟩

theorem override? (h : SameBut x s s') (y : String) : s.override? y = s'.override? y := by
  rw [Scope.override?, Scope.override?, h.overrides]

/-- A name other than `x` is looked up among the declarations that do not declare `x`. -/
theorem declaration?_eq (s : Scope) {x y : String} (hy : y ≠ x) :
    s.declaration? y = (s.declarations.filter (·.name ≠ x)).find? (·.name = y) := by
  rw [Scope.declaration?, List.find?_filter]
  congr 1
  funext d
  by_cases hd : d.name = y
  · simp [hd, hy]
  · simp [hd]

theorem declaration? (h : SameBut x s s') {y : String} (hy : y ≠ x) :
    s.declaration? y = s'.declaration? y := by
  rw [declaration?_eq s hy, declaration?_eq s' hy, h.declarations]

theorem default? (h : SameBut x s s') {y : String} (hy : y ≠ x) :
    s.default? y = s'.default? y := by
  rw [Scope.default?, Scope.default?, h.declaration? hy]

end Scope.SameBut

namespace ArgumentTable

/-- The tables differ at most in what their scopes declare under the name. -/
def SameBut (x : String) (t u : ArgumentTable) : Prop :=
  Scope.SameBut x t.current u.current ∧ List.Forall₂ (Scope.SameBut x) t.enclosing u.enclosing

namespace SameBut

variable {x : String} {t u : ArgumentTable}

theorem refl (x : String) (t : ArgumentTable) : SameBut x t t :=
  ⟨.refl x t.current, List.forall₂_same.2 fun s _ => .refl x s⟩

theorem lookup (h : SameBut x t u) {y : String} (hy : y ≠ x) : t.lookup y = u.lookup y := by
  have hscopes : ∀ {s s' : Scope} {outer outer' : List Scope}, Scope.SameBut x s s' →
      List.Forall₂ (Scope.SameBut x) outer outer' →
      Scope.lookup y s outer = Scope.lookup y s' outer' := by
    intro s s' outer outer' hs houter
    induction houter generalizing s s' with
    | nil => rw [Scope.lookup, Scope.lookup, hs.override? y, hs.default? hy]
    | cons ho _ ih => rw [Scope.lookup, Scope.lookup, hs.override? y, hs.default? hy, ih ho]
  exact hscopes h.1 h.2

/-- A declaration under the name itself makes no difference, wherever it is added. -/
theorem push_left (h : SameBut x t u) {d : Declaration} (hd : d.name = x) :
    SameBut x (t.push d) u :=
  ⟨⟨h.1.overrides, by simpa [push, List.filter_append, hd] using h.1.declarations⟩, h.2⟩

theorem push_right (h : SameBut x t u) {d : Declaration} (hd : d.name = x) :
    SameBut x t (u.push d) :=
  ⟨⟨h.1.overrides, by simpa [push, List.filter_append, hd] using h.1.declarations⟩, h.2⟩

theorem push (h : SameBut x t u) (d : Declaration) : SameBut x (t.push d) (u.push d) := by
  refine ⟨⟨h.1.overrides, ?_⟩, h.2⟩
  change (t.current.declarations ++ [d]).filter _ = (u.current.declarations ++ [d]).filter _
  rw [List.filter_append, List.filter_append, h.1.declarations]

theorem isDeclared (h : SameBut x t u) {y : String} (hy : y ≠ x) :
    t.isDeclared y = u.isDeclared y := by
  rw [ArgumentTable.isDeclared, ArgumentTable.isDeclared, h.1.declaration? hy]

/-- Declaring any other name has the same outcome in both. -/
theorem declare_fst (h : SameBut x t u) {d : Declaration} (hd : d.name ≠ x) :
    (t.declare d).1 = (u.declare d).1 := by
  have hdeclared := h.isDeclared hd
  cases hu : u.isDeclared d.name with
  | true => rw [declare_again (hdeclared.trans hu), declare_again hu]
  | false =>
    rw [declare_new (hdeclared.trans hu), declare_new hu, checkChoice, checkChoice,
      (h.push d).lookup hd]

theorem declare_snd (h : SameBut x t u) (d : Declaration) :
    SameBut x (t.declare d).2 (u.declare d).2 := by
  -- Of the name itself the tables may differ in whether they have it.
  cases ht : t.isDeclared d.name with
  | true =>
    cases hu : u.isDeclared d.name with
    | true => rwa [declare_again ht, declare_again hu]
    | false =>
      rw [declare_again ht, declare_new hu]
      by_cases hd : d.name = x
      · exact h.push_right hd
      · rw [h.isDeclared hd, hu] at ht
        cases ht
  | false =>
    cases hu : u.isDeclared d.name with
    | true =>
      rw [declare_new ht, declare_again hu]
      by_cases hd : d.name = x
      · exact h.push_left hd
      · rw [h.isDeclared hd, hu] at ht
        cases ht
    | false =>
      rw [declare_new ht, declare_new hu]
      exact h.push d

theorem apply (h : SameBut x t u) (change : Change) : SameBut x (t.apply change) (u.apply change) := by
  cases change with
  | declare d => exact h.declare_snd d
  | enter label overrides => exact ⟨⟨rfl, rfl⟩, .cons h.1 h.2⟩
  | setOverride name value =>
    refine ⟨⟨?_, h.1.declarations⟩, h.2⟩
    change t.current.overrides.set name value = u.current.overrides.set name value
    rw [h.1.overrides]
  | leave =>
    obtain ⟨current, enclosing⟩ := t
    obtain ⟨current', enclosing'⟩ := u
    obtain ⟨hcurrent, henclosing⟩ := h
    cases henclosing with
    | nil => exact ⟨hcurrent, .nil⟩
    | cons houter hrest => exact ⟨houter, hrest⟩

/-- Whatever is done to both, they go on differing in the one name only. -/
theorem after (h : SameBut x t u) (changes : List Change) :
    SameBut x (t.after changes) (u.after changes) := by
  induction changes generalizing t u with
  | nil => exact h
  | cons change rest ih => exact ih (h.apply change)

end SameBut

/-- What goes on in an inner scope is gone with it: two tables with the same scopes around the current
one are the same when that is left. -/
theorem after_left {t u : ArgumentTable} (h : t.enclosing = u.enclosing) (hinner : t.enclosing ≠ [])
    {between : List Change} (hb : Matched between) :
    t.after (between ++ [.leave]) = u.after (between ++ [.leave]) := by
  have left : ∀ {v : ArgumentTable} {outer : Scope} {rest : List Scope},
      v.enclosing = outer :: rest → v.after (between ++ [.leave]) = ⟨outer, rest⟩ := by
    intro v outer rest hv
    have habove : Above 0 (outer :: rest) v := ⟨[], rfl, hv⟩
    obtain ⟨inner, hnone, henclosing⟩ := habove.after hb
    obtain rfl : inner = [] := List.length_eq_zero_iff.1 hnone
    rw [after_append]
    change (v.after between).leave = _
    rw [leave, henclosing]
    rfl
  cases hu : u.enclosing with
  | nil => exact absurd (h.trans hu) hinner
  | cons outer rest => rw [left hu, left (h.trans hu)]

/-- The table `u` is what a declaration that is refused for its value makes of `t`. It is what it would
be had the value been allowed: the name is declared, with that value, and cannot be declared again.
All other names go on as without the declaration, and it is gone with its scope. -/
structure Lingers (t : ArgumentTable) (d : Declaration) (value : String) (u : ArgumentTable) : Prop where
  table : u = t.push d
  listed : u.declarations = t.declarations ++ [d]
  lookup : u.lookup d.name = some value
  again : ∀ e : Declaration, e.name = d.name → u.declare e = (.error (.duplicateArgument d.name), u)
  lookup_other : ∀ later x, x ≠ d.name → (u.after later).lookup x = (t.after later).lookup x
  declare_other : ∀ later (e : Declaration), e.name ≠ d.name →
    ((u.after later).declare e).1 = ((t.after later).declare e).1
  listed_other : ∀ later, (u.after later).declarations.filter (·.name ≠ d.name) =
    (t.after later).declarations.filter (·.name ≠ d.name)
  left : t.enclosing ≠ [] → ∀ between, Matched between →
    u.after (between ++ [.leave]) = t.after (between ++ [.leave])

theorem lingers_push {t : ArgumentTable} {d : Declaration} {value : String}
    (hvalue : (t.push d).lookup d.name = some value) : Lingers t d value (t.push d) where
  table := rfl
  listed := rfl
  lookup := hvalue
  again e he := by
    have hdeclared : (t.push d).isDeclared e.name = true := by
      rw [isDeclared_push, he]
      simp
    rw [declare_again hdeclared, he]
  lookup_other later x hx :=
    (((SameBut.refl d.name t).push_left rfl).after later).lookup hx
  declare_other later e he :=
    (((SameBut.refl d.name t).push_left rfl).after later).declare_fst he
  listed_other later :=
    (((SameBut.refl d.name t).push_left rfl).after later).1.declarations
  left hinner between hb := by
    have henclosing : (t.push d).enclosing = t.enclosing := rfl
    exact after_left henclosing hinner hb

/-- A declaration is refused because its scope has the name, and then the table is what it was; or
because its value is none of its choices, and then it stays in the table. -/
theorem refused_declaration {t : ArgumentTable} {d : Declaration} {cause : LaunchCause}
    (h : (t.declare d).1 = .error cause) :
    (t.isDeclared d.name = true ∧ cause = .duplicateArgument d.name ∧ (t.declare d).2 = t) ∨
      (t.isDeclared d.name = false ∧ ∃ choices value, d.choices = some choices ∧
        value ∉ choices ∧ (t.lookup d.name <|> d.default) = some value ∧
        cause = .invalidChoice d.name value choices ∧ Lingers t d value (t.declare d).2) := by
  rcases declare_error h with ⟨hdeclared, hcause⟩ | ⟨hnew, choices, value, hchoices, hvalue, hno, hcause⟩
  · exact .inl ⟨hdeclared, hcause, by rw [declare_again hdeclared]⟩
  · have hpush : (t.declare d).2 = t.push d := by rw [declare_new hnew]
    have hgiven : (t.lookup d.name <|> d.default) = some value := by
      rwa [lookup_push t d d.name hnew, if_pos rfl] at hvalue
    refine .inr ⟨hnew, choices, value, hchoices, hno, hgiven, hcause, ?_⟩
    rw [hpush]
    exact lingers_push hvalue

/-- A speed whose default is none of its choices. -/
def speed : Declaration where
  name := "speed"
  default := some "fast"
  choices := some ["slow"]

/-- The scope of a description that is included where no speed is given. -/
def speedless : ArgumentTable :=
  (ofOverrides []).enter "base" []

theorem speed_lingers :
    (speedless.declare speed).1 = .error (.invalidChoice "speed" "fast" ["slow"]) ∧
      Lingers speedless speed "fast" (speedless.declare speed).2 := by
  have hrefused : (speedless.declare speed).1 = .error (.invalidChoice "speed" "fast" ["slow"]) := by
    decide
  rcases refused_declaration hrefused with ⟨hdeclared, -⟩ | ⟨-, _, _, -, -, -, hcause, hlingers⟩
  · exact absurd hdeclared (by decide)
  · cases hcause
    exact ⟨hrefused, hlingers⟩

/-- After a declaration that is refused its name has a value which it did not have before, it is listed,
and a declaration that was accepted before is refused. -/
theorem refused_speed_stays :
    (speedless.declare speed).1 = .error (.invalidChoice "speed" "fast" ["slow"]) ∧
      (speedless.declare speed).2 ≠ speedless ∧
      speedless.lookup "speed" = none ∧ (speedless.declare speed).2.lookup "speed" = some "fast" ∧
      speedless.declarations = [] ∧ (speedless.declare speed).2.declarations = [speed] ∧
      (speedless.declare { name := "speed", default := some "slow" }).1 = .ok () ∧
      ((speedless.declare speed).2.declare { name := "speed", default := some "slow" }).1 =
        .error (.duplicateArgument "speed") := by
  decide

end ArgumentTable

end LaunchPlan
