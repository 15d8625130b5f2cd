import LaunchPlan.Arguments
import Mathlib.Order.Defs.Unbundled

/-!
# What an argument table shows

A description sees of an argument table the values of names, and which names its own scope has
declared. Two tables that show the same go on showing the same, whatever is declared, overridden or
entered in both. Declaring never changes a value that is there.
-/

namespace LaunchPlan.ArgumentTable

/-- The value of a name that comes from an override or from outside, not from a default of the
current scope. -/
def given (t : ArgumentTable) (x : String) : Option String :=
  t.current.override? x <|> match t.enclosing with
    | [] => none
    | outer :: rest => Scope.lookup x outer rest

def isDeclared (t : ArgumentTable) (x : String) : Bool :=
  (t.current.declaration? x).isSome

/-- A default of the current scope counts where nothing else is given. -/
theorem lookup_eq (t : ArgumentTable) (x : String) :
    t.lookup x = (t.given x <|> t.current.default? x) := by
  obtain ⟨current, _ | ⟨outer, rest⟩⟩ := t
  · simp [lookup, given, Scope.lookup]
  · simp only [lookup, given, Scope.lookup]
    cases current.override? x <;> simp

theorem isDeclared_eq_false {t : ArgumentTable} {x : String} :
    t.isDeclared x = false ↔ x ∉ t.declarations.map Declaration.name := by
  simp [isDeclared, Scope.declaration?, declarations]

theorem default?_eq_none {t : ArgumentTable} {x : String} (h : t.isDeclared x = false) :
    t.current.default? x = none := by
  simp only [isDeclared, Option.isSome_eq_false_iff, Option.isNone_iff_eq_none] at h
  simp [Scope.default?, h]

theorem declare_again {t : ArgumentTable} {d : Declaration} (h : t.isDeclared d.name = true) :
    t.declare d = (.error (.duplicateArgument d.name), t) := by
  rw [isDeclared] at h
  rw [declare, if_pos h]

theorem declare_new {t : ArgumentTable} {d : Declaration} (h : t.isDeclared d.name = false) :
    t.declare d = ((t.push d).checkChoice d, t.push d) := by
  simp only [isDeclared] at h
  simp [declare, h]

section OfOverrides

variable (overrides : Bindings) (x : String)

@[simp] theorem isDeclared_ofOverrides : (ofOverrides overrides).isDeclared x = false := rfl

@[simp] theorem lookup_ofOverrides : (ofOverrides overrides).lookup x = overrides.get? x := by
  rw [lookup_eq, default?_eq_none (isDeclared_ofOverrides overrides x)]
  simp [given, ofOverrides, Scope.override?]

end OfOverrides

section Push

variable (t : ArgumentTable) (d : Declaration) (x : String)

@[simp] theorem given_push : (t.push d).given x = t.given x := rfl

theorem declaration?_push :
    (t.push d).current.declaration? x =
      (t.current.declaration? x <|> if d.name = x then some d else none) := by
  by_cases h : d.name = x <;> simp [push, Scope.declaration?, List.find?_append, h]

theorem isDeclared_push : (t.push d).isDeclared x = (t.isDeclared x || decide (d.name = x)) := by
  rw [isDeclared, declaration?_push, isDeclared]
  by_cases h : d.name = x <;> simp [h]

theorem lookup_push (hd : t.isDeclared d.name = false) :
    (t.push d).lookup x = (t.lookup x <|> if d.name = x then d.default else none) := by
  rw [lookup_eq, lookup_eq, given_push, Scope.default?, declaration?_push, Scope.default?]
  by_cases h : d.name = x
  · subst h
    simp only [isDeclared, Option.isSome_eq_false_iff, Option.isNone_iff_eq_none] at hd
    simp [hd]
  · cases t.current.declaration? x <;> simp [h]

end Push

section SetOverride

variable (t : ArgumentTable) (name value x : String)

theorem given_setOverride :
    (t.setOverride name value).given x = if name = x then some value else t.given x := by
  by_cases h : name = x <;> simp [given, setOverride, Scope.override?, Bindings.get?_set, h]

@[simp] theorem isDeclared_setOverride :
    (t.setOverride name value).isDeclared x = t.isDeclared x := rfl

theorem lookup_setOverride :
    (t.setOverride name value).lookup x = if name = x then some value else t.lookup x := by
  rw [lookup_eq, given_setOverride, lookup_eq]
  by_cases h : name = x
  · simp [h]
  · simp only [h, if_false]
    rfl

end SetOverride

section Enter

variable (t : ArgumentTable) (label : String) (x : String)

@[simp] theorem given_enter : (t.enter label []).given x = t.lookup x := by
  simp [given, enter, Scope.override?, lookup]

@[simp] theorem isDeclared_enter (overrides : Bindings) :
    (t.enter label overrides).isDeclared x = false := rfl

@[simp] theorem lookup_enter : (t.enter label []).lookup x = t.lookup x := by
  rw [lookup_eq, given_enter, default?_eq_none rfl]
  simp

end Enter

/-- The tables show the same of the names in `X`. -/
structure SameView (X : String → Prop) (t₁ t₂ : ArgumentTable) : Prop where
  declared : ∀ x, X x → t₁.isDeclared x = t₂.isDeclared x
  lookup : ∀ x, X x → t₁.lookup x = t₂.lookup x

namespace SameView

variable {X : String → Prop} {t₁ t₂ : ArgumentTable}

theorem refl (X : String → Prop) (t : ArgumentTable) : SameView X t t :=
  ⟨fun _ _ => rfl, fun _ _ => rfl⟩

theorem push (h : SameView X t₁ t₂) {d : Declaration} (hX : X d.name)
    (hd : t₂.isDeclared d.name = false) : SameView X (t₁.push d) (t₂.push d) where
  declared x hx := by rw [isDeclared_push, isDeclared_push, h.declared x hx]
  lookup x hx := by
    rw [lookup_push _ _ _ hd, lookup_push _ _ _ ((h.declared _ hX).trans hd), h.lookup x hx]

/-- Declaring in both has the same outcome. -/
theorem declare (h : SameView X t₁ t₂) {d : Declaration} (hX : X d.name) :
    (t₁.declare d).1 = (t₂.declare d).1 ∧ SameView X (t₁.declare d).2 (t₂.declare d).2 := by
  have hdec := h.declared d.name hX
  cases hd : t₂.isDeclared d.name with
  | true =>
    rw [declare_again hd, declare_again (hdec.trans hd)]
    exact ⟨rfl, h⟩
  | false =>
    have hp := h.push hX hd
    rw [declare_new hd, declare_new (hdec.trans hd), checkChoice, checkChoice,
      hp.lookup d.name hX]
    exact ⟨rfl, hp⟩

theorem setOverride (h : SameView X t₁ t₂) (name value : String) :
    SameView X (t₁.setOverride name value) (t₂.setOverride name value) where
  declared x hx := h.declared x hx
  lookup x hx := by rw [lookup_setOverride, lookup_setOverride, h.lookup x hx]

/-- Only the values matter for what an entered scope shows. -/
theorem enter (h : ∀ x, X x → t₁.lookup x = t₂.lookup x) (label₁ label₂ : String) :
    SameView X (t₁.enter label₁ []) (t₂.enter label₂ []) where
  declared _ _ := rfl
  lookup x hx := by rw [lookup_enter, lookup_enter, h x hx]

end SameView

/-- The table `t'` has the scopes of `t`, and perhaps more declarations in the current one. -/
def Grows (t t' : ArgumentTable) : Prop :=
  ∃ ds, t' = { t with current := { t.current with declarations := t.current.declarations ++ ds } }

theorem Grows.refl (t : ArgumentTable) : t.Grows t :=
  ⟨[], by simp⟩

instance : IsPreorder ArgumentTable Grows where
  refl := Grows.refl
  trans := by
    rintro t _ _ ⟨ds, rfl⟩ ⟨es, rfl⟩
    exact ⟨ds ++ es, by simp⟩

theorem grows_declare (t : ArgumentTable) (d : Declaration) : t.Grows (t.declare d).2 := by
  unfold declare
  split
  · exact Grows.refl t
  · exact ⟨[d], rfl⟩

theorem declarations_declare (t : ArgumentTable) (d : Declaration) :
    (t.declare d).2.declarations =
      if t.isDeclared d.name then t.declarations else t.declarations ++ [d] := by
  rw [declare, isDeclared]
  split <;> rfl

/-- A declaration is refused because of its name, or because its value is none of its choices. -/
theorem declare_error {t : ArgumentTable} {d : Declaration} {cause : LaunchCause}
    (h : (t.declare d).1 = .error cause) :
    (t.isDeclared d.name = true ∧ cause = .duplicateArgument d.name) ∨
      (t.isDeclared d.name = false ∧ ∃ choices value, d.choices = some choices ∧
        (t.push d).lookup d.name = some value ∧ value ∉ choices ∧
        cause = .invalidChoice d.name value choices) := by
  rw [declare] at h
  by_cases hnew : (t.current.declaration? d.name).isSome
  · rw [if_pos hnew] at h
    cases h
    exact .inl ⟨hnew, rfl⟩
  · rw [if_neg hnew] at h
    refine .inr ⟨by simpa [isDeclared] using hnew, ?_⟩
    rw [checkChoice] at h
    split at h
    · next choices value hchoices hvalue =>
      split at h
      · cases h
      · next hmem =>
        cases h
        exact ⟨choices, value, hchoices, hvalue, hmem, rfl⟩
    · cases h

/-- A value stays what it is while its scope goes on. -/
theorem Grows.lookup {t t' : ArgumentTable} (h : t.Grows t') {x value : String}
    (hx : t.lookup x = some value) : t'.lookup x = some value := by
  obtain ⟨ds, rfl⟩ := h
  rw [lookup_eq] at hx ⊢
  change (t.given x <|> _) = some value
  cases hg : t.given x with
  | some v => simpa [hg] using hx
  | none =>
    have hd : t.current.default? x = some value := by simpa [hg] using hx
    obtain ⟨d, hfind, hv⟩ := Option.bind_eq_some_iff.1 hd
    rw [Scope.declaration?] at hfind
    simp [Scope.default?, Scope.declaration?, List.find?_append, hfind, hv]

/-- The names that a scope overrides or declares. -/
def scopeNames (s : Scope) : List String :=
  s.overrides.map Prod.fst ++ s.declarations.map Declaration.name

/-- The values that the current scope sees, by name. -/
def values (t : ArgumentTable) : Bindings :=
  ((t.current :: t.enclosing).flatMap scopeNames).filterMap fun x =>
    (t.lookup x).map fun value => (x, value)

theorem get?_filterMap (f : String → Option String) (names : List String) (x : String) :
    Bindings.get? (names.filterMap fun y => (f y).map fun value => (y, value)) x =
      if x ∈ names then f x else none := by
  induction names with
  | nil => rfl
  | cons y names ih =>
    cases hy : f y with
    | none =>
      by_cases hxy : x = y
      · subst hxy
        by_cases hx : x ∈ names <;> simp [ih, hy, hx]
      · simp [ih, hy, hxy]
    | some value =>
      by_cases hxy : y = x
      · subst hxy
        simp [Bindings.get?, hy]
      · simp [Bindings.get?, ih, hy, hxy, Ne.symm hxy]

theorem get?_eq_none {b : Bindings} {x : String} (h : x ∉ b.map Prod.fst) : b.get? x = none := by
  induction b with
  | nil => rfl
  | cons kv rest ih =>
    simp only [List.map_cons, List.mem_cons, not_or] at h
    simp [Bindings.get?, Ne.symm h.1, ih h.2]

theorem value?_eq_none {s : Scope} {x : String} (h : x ∉ scopeNames s) :
    s.override? x = none ∧ s.default? x = none := by
  simp only [scopeNames, List.mem_append, not_or] at h
  refine ⟨get?_eq_none h.1, ?_⟩
  have hd : s.declaration? x = none := by
    rw [Scope.declaration?, List.find?_eq_none]
    intro d hd hx
    exact h.2 (List.mem_map.2 ⟨d, hd, by simpa using hx⟩)
  simp [Scope.default?, hd]

theorem scope_lookup_eq_none {x : String} (s : Scope) (enclosing : List Scope)
    (h : x ∉ (s :: enclosing).flatMap scopeNames) : Scope.lookup x s enclosing = none := by
  induction enclosing generalizing s with
  | nil =>
    have hs : x ∉ scopeNames s := by simpa using h
    simp [Scope.lookup, value?_eq_none hs]
  | cons outer rest ih =>
    rw [List.flatMap_cons, List.mem_append, not_or] at h
    simp [Scope.lookup, value?_eq_none h.1, ih outer h.2]

/-- The values by name are what the scope sees, no more and no less. -/
theorem get?_values (t : ArgumentTable) (x : String) : t.values.get? x = t.lookup x := by
  rw [values, get?_filterMap]
  split
  · rfl
  · next h => exact (scope_lookup_eq_none t.current t.enclosing h).symm

end LaunchPlan.ArgumentTable
