import LaunchPlan.Proofs.Moments
import LaunchPlan.Proofs.QuotedText
import LaunchPlan.Proofs.Resolving

/-!
# Selectors that are written and selectors that are built

A selector is written as the text `$(select COND KEY=VALUE ...)`, or built by putting in one case
after the other. Both choose the first value of the key that is asked for. What catches the other
keys is the last value under `*` of a selector that is written, and the first of one that is built.
-/

namespace LaunchPlan.Substitution

section Choosing

variable {α : Type} {key value : String} {cases : List (String × α)}

theorem findCase_eq_head? (key : String) (cases : List (String × α)) :
    findCase key cases = (valuesOf key cases).head? := by
  induction cases with
  | nil => rfl
  | cons c cases ih =>
    by_cases hc : c.1 = key
    · simp [findCase, valuesOf, hc]
    · simpa [findCase, valuesOf, hc] using ih

theorem valuesOf_filter_ne (hkey : key ≠ value) :
    valuesOf key (cases.filter fun c => c.1 ≠ value) = valuesOf key cases := by
  rw [valuesOf, valuesOf, List.filter_filter]
  congr 1
  refine List.filter_congr fun c _ => ?_
  by_cases hc : c.1 = key <;> simp [hc, hkey]

theorem valuesOf_filter_self :
    valuesOf key (cases.filter fun c => c.1 ≠ key) = [] := by
  simp [valuesOf_eq_nil_iff]

end Choosing

section Forms

variable {condition : Substitution} {cases : List (String × Substitution)}

/-- `$(select COND KEY=VALUE ...)` -/
def selectText (condition : Substitution) (cases : List (String × Substitution)) : String :=
  String.ofList (call "select" (write condition :: cases.map caseWord))

/-- The selector that is written with the cases. -/
def written (condition : Substitution) (cases : List (String × Substitution)) :
    Selector Substitution Substitution :=
  ⟨condition, cases.filter fun c => c.1 ≠ wildcard, (valuesOf wildcard cases).getLast?⟩

/-- The selector that is built by putting in the cases. -/
def built (condition : Substitution) (cases : List (String × Substitution)) :
    Selector Substitution Substitution :=
  cases.foldl (fun s c => s.case c.1 c.2) { condition }

theorem built_eq (condition : Substitution) (cases : List (String × Substitution)) :
    built condition cases = ⟨condition, cases, none⟩ := by
  induction cases using List.reverseRecOn with
  | nil => rfl
  | append_singleton cases c ih =>
    rw [built] at ih ⊢
    rw [List.foldl_append, ih]
    rfl

theorem choose_written (value : String) :
    (written condition cases).choose value =
      (if value = wildcard then none else (valuesOf value cases).head?).or
        (valuesOf wildcard cases).getLast? := by
  have hwild : findCase wildcard (written condition cases).cases = none := by
    rw [findCase_eq_head?, written, valuesOf_filter_self, List.head?_nil]
  rw [Selector.choose, hwild, findCase_eq_head?, written]
  by_cases hvalue : value = wildcard
  · rw [if_pos hvalue, hvalue, valuesOf_filter_self]
    rfl
  · rw [if_neg hvalue, valuesOf_filter_ne hvalue]
    cases (valuesOf value cases).head? <;> rfl

theorem choose_built (value : String) :
    (built condition cases).choose value =
      (valuesOf value cases).head?.or (valuesOf wildcard cases).head? := by
  rw [Selector.choose, built_eq, findCase_eq_head?, findCase_eq_head?]
  cases (valuesOf value cases).head? <;> cases (valuesOf wildcard cases).head? <;> rfl

theorem readsBack_nestedChars {bound : Nat} : ReadsBack (nestedChars : Nested bound) :=
  fun _ hparts _ _ heq => readWithin_back _ hparts _ heq

/-- What is written is read as the selector with the cases that are kept. -/
theorem read_selectText (hcondition : Normal .operand condition)
    (hcases : ∀ c ∈ cases, Plain c.1 ∧ Normal .operand c.2) (hne : cases ≠ []) :
    read (selectText condition cases) = .ok [.select (written condition cases)] := by
  have hwords := writeSelect_word hcondition hcases
  have hwhole := fun w hw => (hwords w hw).whole
  have hdepth : depthAfter 0 (joinWords (write condition :: cases.map caseWord)) = some 0 :=
    (joinWords_balanced fun w hw => (hwords w hw).balanced.inside).depthAfter 0
  obtain ⟨-, hjoin⟩ := joinWords_trimmed (List.cons_ne_nil _ _) hwhole
  have hempty : (joinWords (write condition :: cases.map caseWord)).isEmpty = false := by
    simpa using hjoin
  have hselect := readSelect_cases readsBack_nestedChars hcondition hcases hne rfl
  have hkind : readKind "select" (joinWords (write condition :: cases.map caseWord)) nestedChars =
      .ok (.select (written condition cases)) := by
    simp only [readKind, hempty]
    refine hselect.trans ?_
    rw [selectorOf_eq condition fun c hc => (hcases c hc).1, written]
  rw [read, selectText, String.toList_ofList,
    readChars_call (by decide) (List.cons_ne_nil _ _) hwhole hdepth, hkind]
  rfl

section Resolving

variable {σ : Type} (host : Host σ) (env : Environment) (arguments : ArgumentTable)

/-- What comes of a choice under a key among others. -/
def resolveChosen (keys : List String) (value : String) : Option Substitution → Resolving σ String
  | some chosen => resolve host env arguments chosen
  | none => throw (.noMatchingCase value keys)

/-- Without anything under `*`, all keys are kept. -/
theorem keys_written (condition : Substitution)
    (h : (valuesOf wildcard cases).getLast? = none) :
    (written condition cases).cases.map Prod.fst = cases.map Prod.fst := by
  have hvalues := valuesOf_eq_nil_iff.1 (List.getLast?_eq_none_iff.1 h)
  rw [written, List.filter_eq_self.2 fun c hc => by simpa using hvalues c hc]

theorem resolve_written (condition : Substitution) (cases : List (String × Substitution)) :
    resolve host env arguments (.select (written condition cases)) =
      resolve host env arguments condition >>= fun value =>
        resolveChosen host env arguments (cases.map Prod.fst) value
          ((if value = wildcard then none else (valuesOf value cases).head?).or
            (valuesOf wildcard cases).getLast?) := by
  rw [written, resolve_select, ← written]
  refine bind_congr fun value => ?_
  rw [choose_written]
  cases hchosen : (if value = wildcard then none else (valuesOf value cases).head?).or
      (valuesOf wildcard cases).getLast? with
  | some chosen => rfl
  | none =>
    -- Nothing is chosen only if nothing stands under `*`, and then no key is left out.
    rw [resolveChosen, ← keys_written condition (Option.or_eq_none_iff.1 hchosen).2]
    rfl

theorem resolve_built (condition : Substitution) (cases : List (String × Substitution)) :
    resolve host env arguments (.select (built condition cases)) =
      resolve host env arguments condition >>= fun value =>
        resolveChosen host env arguments (cases.map Prod.fst) value
          ((valuesOf value cases).head?.or (valuesOf wildcard cases).head?) := by
  have hbuilt := built_eq condition cases
  rw [hbuilt, resolve_select, ← hbuilt]
  refine bind_congr fun value => ?_
  rw [choose_built]
  cases (valuesOf value cases).head?.or (valuesOf wildcard cases).head? <;> rfl

/-- Where the first value under `*` is also the last, it makes no difference whether the key `*` is
found or caught. -/
theorem choice_eq (h : (valuesOf wildcard cases).getLast? = (valuesOf wildcard cases).head?)
    (value : String) :
    (if value = wildcard then none else (valuesOf value cases).head?).or
        (valuesOf wildcard cases).getLast? =
      (valuesOf value cases).head?.or (valuesOf wildcard cases).head? := by
  rw [h]
  by_cases hvalue : value = wildcard
  · rw [if_pos hvalue, hvalue, Option.none_or, Option.or_self]
  · rw [if_neg hvalue]

end Resolving

/-- The text of a selector is read, and the selector resolves by the first value of the key that its
condition gives, or else by the last value under `*`; the selector that is built resolves by the
first value under `*`. No other value is resolved. So the two are alike where the values under `*`
begin and end with the same. -/
theorem selectors_choose (hcondition : Normal .operand condition)
    (hcases : ∀ c ∈ cases, Plain c.1 ∧ Normal .operand c.2) (hne : cases ≠ []) :
    read (selectText condition cases) = .ok [.select (written condition cases)] ∧
      ∀ {σ : Type} (host : Host σ) (env : Environment) (arguments : ArgumentTable),
        resolve host env arguments (.select (written condition cases)) =
            (resolve host env arguments condition >>= fun value =>
              resolveChosen host env arguments (cases.map Prod.fst) value
                ((if value = wildcard then none else (valuesOf value cases).head?).or
                  (valuesOf wildcard cases).getLast?)) ∧
          resolve host env arguments (.select (built condition cases)) =
            (resolve host env arguments condition >>= fun value =>
              resolveChosen host env arguments (cases.map Prod.fst) value
                ((valuesOf value cases).head?.or (valuesOf wildcard cases).head?)) ∧
          ((valuesOf wildcard cases).getLast? = (valuesOf wildcard cases).head? →
            resolve host env arguments (.select (written condition cases)) =
              resolve host env arguments (.select (built condition cases))) := by
  refine ⟨read_selectText hcondition hcases hne, fun host env arguments =>
    ⟨resolve_written host env arguments condition cases,
      resolve_built host env arguments condition cases, fun hends => ?_⟩⟩
  rw [resolve_written, resolve_built]
  exact bind_congr fun value => by rw [choice_eq hends]

/-- A key that comes twice, around the key `*`. -/
def distroCases : List (String × Substitution) :=
  [("foxy", .text "old"), ("*", .argument "driver"), ("foxy", .text "new")]

theorem distroCases_alike :
    read "$(select $(var distro) foxy=old *=$(var driver) foxy=new)" =
        .ok [.select (written (.argument "distro") distroCases)] ∧
      ∀ {σ : Type} (host : Host σ) (env : Environment) (arguments : ArgumentTable),
        resolve host env arguments (.select (written (.argument "distro") distroCases)) =
          resolve host env arguments (.select (built (.argument "distro") distroCases)) := by
  have htext : selectText (.argument "distro") distroCases =
      "$(select $(var distro) foxy=old *=$(var driver) foxy=new)" := by decide +kernel
  have hcases : ∀ c ∈ distroCases, Plain c.1 ∧ Normal .operand c.2 := by
    simpa [distroCases] using ⟨⟨by decide, .alone (.text (by decide))⟩,
      ⟨by decide, .alone (.argument (by decide))⟩, ⟨by decide, .alone (.text (by decide))⟩⟩
  have hcondition : Normal .operand (.argument "distro") := .alone (.argument (by decide))
  obtain ⟨hread, halike⟩ := selectors_choose hcondition hcases (by decide)
  rw [htext] at hread
  exact ⟨hread, fun host env arguments => (halike host env arguments).2.2 rfl⟩

/-- The key `*` twice. -/
def stars : List (String × Substitution) :=
  [("*", .text "x"), ("*", .text "y")]

/-- With two values under `*`, the selector that is written takes the last and the one that is built
the first. -/
theorem stars_apart :
    read "$(select * *=x *=y)" = .ok [.select (written (.text "*") stars)] ∧
      ((resolve Host.echo {} (.ofOverrides []) (.select (written (.text "*") stars))).run
        (.fresh ())).1 = .ok "y" ∧
      ((resolve Host.echo {} (.ofOverrides []) (.select (built (.text "*") stars))).run
        (.fresh ())).1 = .ok "x" := by
  have htext : selectText (.text "*") stars = "$(select * *=x *=y)" := by decide +kernel
  have hcases : ∀ c ∈ stars, Plain c.1 ∧ Normal .operand c.2 := by
    simpa [stars] using
      ⟨⟨by decide, .alone (.text (by decide))⟩, ⟨by decide, .alone (.text (by decide))⟩⟩
  rw [← htext]
  exact ⟨read_selectText (.alone (.text (by decide))) hcases (by decide), rfl, rfl⟩

end Forms

end LaunchPlan.Substitution
