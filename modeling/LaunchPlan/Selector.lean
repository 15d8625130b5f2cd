/-!
# Choosing among cases

A selector holds a condition, cases keyed by text and perhaps a default. The
first case with the wanted key is chosen, then the first case with the key `*`,
then the default.
-/

namespace LaunchPlan

/-- The key that catches every value no other case has. -/
def wildcard : String := "*"

/-- Cases of type `α` chosen by a condition of type `ε`. -/
structure Selector (ε α : Type) where
  condition : ε
  cases : List (String × α) := []
  default : Option α := none

/-- The first value stored under `key`. -/
def findCase {α : Type} (key : String) : List (String × α) → Option α
  | [] => none
  | (k, a) :: rest => if k = key then some a else findCase key rest

theorem findCase_mem {α : Type} {key : String} {cases : List (String × α)} {a : α}
    (h : findCase key cases = some a) : (key, a) ∈ cases := by
  induction cases with
  | nil => simp [findCase] at h
  | cons ka rest ih =>
    obtain ⟨k, b⟩ := ka
    by_cases hk : k = key
    · simp only [findCase, hk, if_true, Option.some.injEq] at h
      simp [hk, h]
    · simp only [findCase, hk, if_false] at h
      exact List.mem_cons_of_mem _ (ih h)

namespace Selector

variable {ε α : Type}

/-- A selector with a further case. -/
def case (s : Selector ε α) (key : String) (value : α) : Selector ε α :=
  { s with cases := s.cases ++ [(key, value)] }

/-- A selector whose default is `value`. -/
def otherwise (s : Selector ε α) (value : α) : Selector ε α :=
  { s with default := some value }

/-- What is chosen when the condition has the value `value`. -/
def choose (s : Selector ε α) (value : String) : Option α :=
  (findCase value s.cases <|> findCase wildcard s.cases) <|> s.default

end Selector

end LaunchPlan
