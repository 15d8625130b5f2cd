import LaunchPlan.Bindings
import Mathlib.Data.List.Induction
import Mathlib.Data.List.Nodup

/-!
# Bindings that collect pairs

Setting pairs one after the other leaves each name once, at the place where it first came, with the
value that came last. These bindings are the only ones of which that can be said.
-/

namespace LaunchPlan.Bindings

variable {pairs b : Bindings} {name value : String}

/-- Sets each pair in turn. -/
def setAll (b : Bindings) (pairs : List (String × String)) : Bindings :=
  pairs.foldl (fun b (k, v) => b.set k v) b

theorem ofPairs_eq (pairs : List (String × String)) : ofPairs pairs = setAll [] pairs := rfl

theorem setAll_append (b : Bindings) (pairs more : List (String × String)) :
    b.setAll (pairs ++ more) = (b.setAll pairs).setAll more :=
  List.foldl_append

/-- No pair of the name comes after one with this value. -/
def ComesLast (pairs : List (String × String)) (name value : String) : Prop :=
  ∃ before after, pairs = before ++ (name, value) :: after ∧ name ∉ after.map Prod.fst

/-- The bindings hold each name of the pairs once, in the order in which the names first come, with
the value that comes last. -/
structure MergeOf (pairs : List (String × String)) (b : Bindings) : Prop where
  distinct : (b.map Prod.fst).Nodup
  order : b.map Prod.fst = (pairs.map Prod.fst).eraseDups
  last : ∀ name value, (name, value) ∈ b ↔ ComesLast pairs name value

theorem mem_keys_iff : name ∈ b.map Prod.fst ↔ ∃ value, (name, value) ∈ b := by
  simp

/-- Setting a name changes the value of the name, and adds it where it is new. -/
theorem mem_set (hb : (b.map Prod.fst).Nodup) (k v : String) :
    (name, value) ∈ b.set k v ↔ if name = k then value = v else (name, value) ∈ b := by
  induction b with
  | nil => by_cases h : name = k <;> simp [set, h]
  | cons kv rest ih =>
    obtain ⟨k', v'⟩ := kv
    rw [List.map_cons, List.nodup_cons] at hb
    by_cases hk : k' = k
    · subst hk
      by_cases h : name = k'
      · subst h
        have hno : (name, value) ∉ rest := fun hmem => hb.1 (mem_keys_iff.2 ⟨value, hmem⟩)
        simp [set, hno]
      · simp [set, h]
    · by_cases h : name = k
      · subst h
        simp [set, hk, Ne.symm hk, ih hb.2]
      · simp [set, hk, h, ih hb.2]

/-- Where each name comes once, the value of a name is the one it is paired with. -/
theorem get?_eq_some_iff (hb : (b.map Prod.fst).Nodup) :
    b.get? name = some value ↔ (name, value) ∈ b := by
  induction b with
  | nil => simp
  | cons kv rest ih =>
    obtain ⟨k, v⟩ := kv
    rw [List.map_cons, List.nodup_cons] at hb
    by_cases hk : k = name
    · subst hk
      have hno : (k, value) ∉ rest := fun hmem => hb.1 (mem_keys_iff.2 ⟨value, hmem⟩)
      simp [get?, hno, eq_comm]
    · simp [get?, hk, Ne.symm hk, ih hb.2]

theorem not_comesLast_nil : ¬ ComesLast [] name value := by
  rintro ⟨before, after, h, -⟩
  simp at h

/-- A further pair is the last of its name, and leaves the other names alone. -/
theorem comesLast_concat (k v : String) :
    ComesLast (pairs ++ [(k, v)]) name value ↔
      if name = k then value = v else ComesLast pairs name value := by
  constructor
  · rintro ⟨before, after, hsplit, hafter⟩
    rcases List.eq_nil_or_concat after with rfl | ⟨after, last, rfl⟩
    · obtain ⟨-, hlast⟩ := List.append_inj' hsplit rfl
      obtain ⟨rfl, rfl⟩ : k = name ∧ v = value := by simpa using hlast
      simp
    · rw [List.concat_eq_append, ← List.cons_append, ← List.append_assoc] at hsplit
      obtain ⟨hpairs, hlast⟩ := List.append_inj' hsplit rfl
      obtain rfl : (k, v) = last := by simpa using hlast
      have hne : name ≠ k := by
        rintro rfl
        simp at hafter
      rw [if_neg hne]
      exact ⟨before, after, hpairs, fun hmem => hafter (by simp_all)⟩
  · by_cases hk : name = k
    · rw [if_pos hk]
      rintro rfl
      exact ⟨pairs, [], by rw [hk], by simp⟩
    · rw [if_neg hk]
      rintro ⟨before, after, rfl, hafter⟩
      refine ⟨before, after ++ [(k, v)], by simp, ?_⟩
      rw [List.map_append, List.mem_append, not_or]
      exact ⟨hafter, by simpa using hk⟩

theorem eraseDups_concat (names : List String) (k : String) :
    (names ++ [k]).eraseDups = if k ∈ names then names.eraseDups else names.eraseDups ++ [k] := by
  rw [List.eraseDups_append]
  by_cases hk : k ∈ names <;> simp [List.removeAll, List.eraseDups_cons, hk]

namespace MergeOf

/-- Setting one pair more collects one pair more. -/
theorem concat (h : MergeOf pairs b) (k v : String) : MergeOf (pairs ++ [(k, v)]) (b.set k v) where
  distinct := by
    rw [keys_set]
    by_cases hk : k ∈ b.map Prod.fst
    · rw [if_pos hk]
      exact h.distinct
    · rw [if_neg hk, ← List.concat_eq_append]
      exact h.distinct.concat hk
  order := by
    rw [keys_set, List.map_append, List.map_singleton, eraseDups_concat, h.order]
    simp only [List.mem_eraseDups]
  last name value := by
    rw [mem_set h.distinct, comesLast_concat, h.last]

theorem get?_iff (h : MergeOf pairs b) : b.get? name = some value ↔ ComesLast pairs name value :=
  (get?_eq_some_iff h.distinct).trans (h.last name value)

/-- No two bindings collect the same pairs. -/
theorem unique {other : Bindings} (hb : MergeOf pairs b) (hother : MergeOf pairs other) :
    b = other := by
  have hkeys : b.map Prod.fst = other.map Prod.fst := hb.order.trans hother.order.symm
  have hlength : b.length = other.length := by simpa using congrArg List.length hkeys
  refine List.ext_getElem hlength fun i hib hiother => ?_
  have hname : b[i].1 = other[i].1 := by
    have hget := List.getElem_of_eq hkeys (by simpa using hib)
    simpa using hget
  -- The pair at the place in `b` is in `other` too, where the name comes once.
  have hmem : b[i] ∈ other := (hother.last _ _).2 ((hb.last _ _).1 (List.getElem_mem hib))
  exact List.inj_on_of_nodup_map hother.distinct hmem (List.getElem_mem hiother) hname

end MergeOf

/-- Setting all pairs collects them. -/
theorem mergeOf_ofPairs (pairs : List (String × String)) : MergeOf pairs (ofPairs pairs) := by
  induction pairs using List.reverseRecOn with
  | nil => exact ⟨List.nodup_nil, rfl, fun name value => by simp [ofPairs, not_comesLast_nil]⟩
  | append_singleton pairs kv ih =>
    rw [ofPairs, List.foldl_concat]
    exact ih.concat kv.1 kv.2

theorem mergeOf_iff : MergeOf pairs b ↔ b = ofPairs pairs := by
  constructor
  · intro h
    exact h.unique (mergeOf_ofPairs pairs)
  · rintro rfl
    exact mergeOf_ofPairs pairs

end LaunchPlan.Bindings
