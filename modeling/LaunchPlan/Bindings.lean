/-!
# Ordered bindings

Lists of names with their values, in the order in which the names first came.
Setting a name again changes its value and keeps its place.
-/

namespace LaunchPlan

abbrev Bindings := List (String × String)

namespace Bindings

def get? : Bindings → String → Option String
  | [], _ => none
  | (k, v) :: rest, name => if k = name then some v else get? rest name

def set : Bindings → String → String → Bindings
  | [], name, value => [(name, value)]
  | (k, v) :: rest, name, value =>
    if k = name then (k, value) :: rest else (k, v) :: set rest name value

def erase (b : Bindings) (name : String) : Bindings :=
  b.filter fun (k, _) => k ≠ name

/-- The bindings made by setting each pair in turn. -/
def ofPairs (pairs : List (String × String)) : Bindings :=
  pairs.foldl (fun b (k, v) => b.set k v) []

@[simp] theorem get?_nil (name : String) : get? [] name = none := rfl

theorem get?_set (b : Bindings) (name value other : String) :
    (b.set name value).get? other = if name = other then some value else b.get? other := by
  induction b with
  | nil => simp [set, get?]
  | cons kv rest ih =>
    obtain ⟨k, v⟩ := kv
    by_cases hk : k = name
    · subst hk
      by_cases ho : k = other <;> simp [set, get?, ho]
    · by_cases ho : k = other
      · subst ho
        simp [set, get?, hk, Ne.symm hk]
      · simp [set, get?, hk, ho, ih]

theorem get?_erase (b : Bindings) (name other : String) :
    (b.erase name).get? other = if name = other then none else b.get? other := by
  induction b with
  | nil => simp [erase, get?]
  | cons kv rest ih =>
    obtain ⟨k, v⟩ := kv
    by_cases hk : k = name
    · have : erase ((k, v) :: rest) name = erase rest name := by simp [erase, hk]
      rw [this, ih]
      by_cases ho : name = other <;> simp [get?, hk, ho]
    · have : erase ((k, v) :: rest) name = (k, v) :: erase rest name := by simp [erase, hk]
      rw [this]
      by_cases ho : k = other
      · have hname : name ≠ other := fun h => hk (ho.trans h.symm)
        simp [get?, ho, hname]
      · simp [get?, ho, ih]

theorem keys_set (b : Bindings) (name value : String) :
    (b.set name value).map Prod.fst =
      if name ∈ b.map Prod.fst then b.map Prod.fst else b.map Prod.fst ++ [name] := by
  induction b with
  | nil => simp [set]
  | cons kv rest ih =>
    obtain ⟨k, v⟩ := kv
    by_cases hk : k = name
    · simp [set, hk]
    · by_cases hm : name ∈ rest.map Prod.fst
      · simp only [hm, if_true] at ih
        simp [set, hk, ih, hm]
      · simp only [hm, if_false] at ih
        simp [set, hk, Ne.symm hk, ih, hm]

end Bindings

end LaunchPlan
