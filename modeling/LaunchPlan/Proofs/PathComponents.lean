import LaunchPlan.Path
import Mathlib.Data.List.Chain

/-!
# Components of joined paths

A path is given by the names between its separators and by whether it starts at the root. Joining
keeps both of the segments, and the path that it makes is the only tidy one that has them. So it
makes no difference whether segments are joined at once or in parts.
-/

namespace LaunchPlan.Path

section Names

variable {c d : Char} {cs ds : List Char}

/-- The names between separators, in order. -/
def names (cs : List Char) : List (List Char) :=
  (cs.splitOn '/').filter fun name => !name.isEmpty

theorem names_nil : names [] = [] := rfl

theorem names_append_separator (cs ds : List Char) :
    names (cs ++ '/' :: ds) = names cs ++ names ds := by
  simp only [names, List.splitOn_eq_splitOnP]
  rw [List.splitOnP_append_cons cs ds (by decide), List.filter_append]

theorem names_separator (cs : List Char) : names ('/' :: cs) = names cs :=
  names_append_separator [] cs

theorem names_singleton (hc : c ≠ '/') : names [c] = [[c]] := by
  simp [names, List.splitOn_cons_eq_if_modifyHead, hc]

theorem names_cons_separator (hc : c ≠ '/') (cs : List Char) :
    names (c :: '/' :: cs) = [c] :: names cs := by
  rw [← List.singleton_append, names_append_separator, names_singleton hc, List.singleton_append]

/-- Inside a name, a further character in front makes that name longer. -/
theorem exists_names_cons (hc : c ≠ '/') (hd : d ≠ '/') (cs : List Char) :
    ∃ name rest, names (d :: cs) = name :: rest ∧ names (c :: d :: cs) = (c :: name) :: rest := by
  obtain ⟨piece, pieces, hsplit⟩ := List.exists_cons_of_ne_nil (List.splitOn_ne_nil '/' cs)
  refine ⟨d :: piece, pieces.filter fun name => !name.isEmpty, ?_, ?_⟩ <;>
    simp [names, List.splitOn_cons_eq_if_modifyHead, hc, hd, hsplit]

/-- What a further character in front does to the names depends on them and on the character that
it comes before. -/
theorem names_cons_congr (c : Char) (hhead : cs.head? = ds.head?) (hnames : names cs = names ds) :
    names (c :: cs) = names (c :: ds) := by
  by_cases hc : c = '/'
  · rw [hc, names_separator, names_separator, hnames]
  · cases cs with
    | nil =>
      obtain rfl : ds = [] := by simpa using hhead.symm
      rfl
    | cons d cs =>
      obtain ⟨ds, rfl⟩ : ∃ es, ds = d :: es := List.head?_eq_some_iff.1 hhead.symm
      by_cases hd : d = '/'
      · subst hd
        rw [names_separator, names_separator] at hnames
        rw [names_cons_separator hc, names_cons_separator hc, hnames]
      · obtain ⟨name, rest, hname, hall⟩ := exists_names_cons hc hd cs
        obtain ⟨name', rest', hname', hall'⟩ := exists_names_cons hc hd ds
        rw [hname, hname'] at hnames
        obtain ⟨rfl, rfl⟩ := List.cons.inj hnames
        rw [hall, hall']

/-- Text in which no separator follows another. -/
def Single (cs : List Char) : Prop :=
  cs.IsChain fun c d => c = '/' → d ≠ '/'

/-- The separator at the root, if the text begins there. -/
def root (cs : List Char) : List Char :=
  if cs.head? = some '/' then ['/'] else []

/-- Text without doubled separators and without one at its end is made of its names. -/
theorem eq_root_append_names (hsingle : Single cs) (hlast : cs.getLast? ≠ some '/') :
    cs = root cs ++ ['/'].intercalate (names cs) := by
  induction cs with
  | nil => rfl
  | cons c cs ih =>
    cases cs with
    | nil =>
      have hc : c ≠ '/' := by simpa using hlast
      simp [root, hc, names_singleton hc]
    | cons d cs =>
      obtain ⟨hnext, hrest⟩ := List.isChain_cons_cons.1 hsingle
      have htail := ih hrest (by simpa [List.getLast?_cons_cons] using hlast)
      by_cases hc : c = '/'
      · have hd : d ≠ '/' := hnext hc
        subst hc
        rw [names_separator]
        simpa [root, hd] using htail
      · by_cases hd : d = '/'
        · subst hd
          rw [names_separator] at htail
          -- A name comes after the separator, as the text does not end with it.
          have hne : names cs ≠ [] := by
            intro hnil
            rw [hnil] at htail
            have hcs : cs = [] := by simpa [root] using htail
            simp [hcs] at hlast
          obtain ⟨name, rest, hnames⟩ := List.exists_cons_of_ne_nil hne
          rw [names_cons_separator hc, hnames, List.intercalate_cons_cons, ← hnames]
          simpa [root, hc] using htail
        · obtain ⟨name, rest, hnames, hall⟩ := exists_names_cons hc hd cs
          rw [hnames] at htail
          rw [hall]
          cases rest <;> simpa [root, hc, hd, List.intercalate_cons_cons] using htail

end Names

section Tidying

variable {cs : List Char}

theorem head?_collapse (cs : List Char) : (collapse cs).head? = cs.head? := by
  fun_induction collapse cs with
  | case1 => rfl
  | case2 => rfl
  | case3 c d rest h ih => rw [ih, h.1, h.2]; rfl
  | case4 => rfl

theorem single_collapse (cs : List Char) : Single (collapse cs) := by
  fun_induction collapse cs with
  | case1 => exact .nil
  | case2 => exact .singleton _
  | case3 c d rest h ih => exact ih
  | case4 c d rest h ih =>
    refine List.isChain_cons.2 ⟨fun e he hc => ?_, ih⟩
    obtain rfl : d = e := by simpa [head?_collapse] using he
    exact fun hd => h ⟨hc, hd⟩

theorem names_collapse (cs : List Char) : names (collapse cs) = names cs := by
  fun_induction collapse cs with
  | case1 => rfl
  | case2 => rfl
  | case3 c d rest h ih => rw [ih, h.1, names_separator]
  | case4 c d rest h ih => exact names_cons_congr c (head?_collapse _) ih

theorem dropFinalSeparator_concat (hne : cs ≠ []) : dropFinalSeparator (cs ++ ['/']) = cs := by
  induction cs with
  | nil => exact absurd rfl hne
  | cons c cs ih =>
    cases cs with
    | nil => rfl
    | cons d cs =>
      rw [List.cons_append, List.cons_append, dropFinalSeparator, ← List.cons_append,
        ih (List.cons_ne_nil d cs)]
      simp

theorem dropFinalSeparator_of_last (h : cs.getLast? ≠ some '/') : dropFinalSeparator cs = cs := by
  fun_induction dropFinalSeparator cs with
  | case1 => rfl
  | case2 => rfl
  | case3 c => simp at h
  | case4 c d rest _ ih => rw [ih (by simpa [List.getLast?_cons_cons] using h)]

/-- Text without doubled separators, and without one at its end unless that is all there is. -/
structure Tidy (cs : List Char) : Prop where
  single : Single cs
  last : cs.getLast? = some '/' → cs = ['/']

theorem Tidy.eq (h : Tidy cs) : cs = root cs ++ ['/'].intercalate (names cs) := by
  by_cases hlast : cs.getLast? = some '/'
  · rw [h.last hlast]
    rfl
  · exact eq_root_append_names h.single hlast

/-- What is left without its final separator is the separator alone, or does not end with one. -/
inductive Trims : List Char → List Char → Prop
  | alone : Trims ['/'] ['/']
  | keeps {cs : List Char} : cs.getLast? ≠ some '/' → Trims cs cs
  | drops {cs : List Char} : cs ≠ [] → cs.getLast? ≠ some '/' → Trims (cs ++ ['/']) cs

theorem trims_dropFinalSeparator (h : Single cs) : Trims cs (dropFinalSeparator cs) := by
  rcases List.eq_nil_or_concat cs with rfl | ⟨ds, c, rfl⟩
  · exact .keeps (by simp)
  · rw [List.concat_eq_append] at h ⊢
    by_cases hc : c = '/'
    · subst hc
      by_cases hne : ds = []
      · subst hne
        exact .alone
      · rw [dropFinalSeparator_concat hne]
        obtain ⟨-, -, hseam⟩ := List.isChain_append.1 h
        exact .drops hne fun hlast => hseam '/' hlast '/' rfl rfl rfl
    · have hlast : (ds ++ [c]).getLast? ≠ some '/' := by simpa using hc
      rw [dropFinalSeparator_of_last hlast]
      exact .keeps hlast

namespace Trims

variable {ds : List Char}

theorem names_eq (h : Trims cs ds) : names ds = names cs := by
  cases h with
  | alone => rfl
  | keeps => rfl
  | drops => rw [names_append_separator, names_nil, List.append_nil]

theorem head?_eq (h : Trims cs ds) : ds.head? = cs.head? := by
  cases h with
  | alone => rfl
  | keeps => rfl
  | drops hne => exact (List.head?_append_of_ne_nil ds hne).symm

theorem tidy (h : Trims cs ds) (hsingle : Single cs) : Tidy ds := by
  cases h with
  | alone => exact ⟨hsingle, fun _ => rfl⟩
  | keeps hlast => exact ⟨hsingle, fun h => absurd h hlast⟩
  | drops _ hlast => exact ⟨(List.isChain_append.1 hsingle).1, fun h => absurd h hlast⟩

end Trims

end Tidying

section Segments

/-- The segments with separators between them, as they are. -/
def spelled (segments : List (List Char)) : List Char :=
  ['/'].intercalate (segments.filter fun s => !s.isEmpty)

/-- Segments that spell nothing are passed over. -/
theorem spelled_cons (s : List Char) (segments : List (List Char)) :
    spelled (s :: segments) =
      if s = [] then spelled segments
      else if spelled segments = [] then s else s ++ '/' :: spelled segments := by
  by_cases hs : s = []
  · simp [spelled, hs]
  · have hfilter : (s :: segments).filter (fun s => !s.isEmpty) =
        s :: segments.filter fun s => !s.isEmpty := by
      simp [hs]
    rw [if_neg hs, spelled, hfilter, spelled]
    cases hrest : segments.filter fun s => !s.isEmpty with
    | nil => simp
    | cons v rest =>
      have hv : v ≠ [] := by
        have hmem : v ∈ segments.filter fun s => !s.isEmpty := hrest ▸ List.mem_cons_self ..
        simpa using (List.mem_filter.1 hmem).2
      have hne : ['/'].intercalate (v :: rest) ≠ [] := by
        cases rest <;> simp [List.intercalate_cons_cons, hv]
      rw [if_neg hne, List.intercalate_cons_cons, List.append_assoc, List.singleton_append]

theorem names_spelled (segments : List (List Char)) :
    names (spelled segments) = segments.flatMap names := by
  induction segments with
  | nil => rfl
  | cons s segments ih =>
    rw [List.flatMap_cons, ← ih, spelled_cons]
    split
    · next hs => rw [hs, names_nil, List.nil_append]
    · split
      · next hrest => rw [hrest, names_nil, List.append_nil]
      · exact names_append_separator s _

theorem head?_spelled (segments : List (List Char)) :
    (spelled segments).head? = segments.findSome? List.head? := by
  induction segments with
  | nil => rfl
  | cons s segments ih =>
    rw [spelled_cons, List.findSome?_cons, ← ih]
    cases s with
    | nil => rfl
    | cons c s =>
      rw [if_neg (List.cons_ne_nil c s)]
      split <;> rfl

theorem trims_joinChars (segments : List (List Char)) :
    Trims (collapse (spelled segments)) (joinChars segments) :=
  trims_dropFinalSeparator (single_collapse (spelled segments))

theorem tidy_joinChars (segments : List (List Char)) : Tidy (joinChars segments) :=
  (trims_joinChars segments).tidy (single_collapse (spelled segments))

theorem names_joinChars (segments : List (List Char)) :
    names (joinChars segments) = segments.flatMap names := by
  rw [(trims_joinChars segments).names_eq, names_collapse, names_spelled]

theorem head?_joinChars (segments : List (List Char)) :
    (joinChars segments).head? = segments.findSome? List.head? := by
  rw [(trims_joinChars segments).head?_eq, head?_collapse, head?_spelled]

/-- The non-empty pieces between the separators of the segments, in order. -/
def components (segments : List String) : List String :=
  segments.flatMap fun s => (pieces s).filter (· ≠ "")

/-- The first segment that is not empty begins with a separator. -/
def StartsAtRoot (segments : List String) : Prop :=
  segments.findSome? (fun s => s.toList.head?) = some '/'

instance : DecidablePred StartsAtRoot :=
  fun segments => inferInstanceAs (Decidable (segments.findSome? _ = some '/'))

theorem toList_joinSegments (segments : List String) :
    (joinSegments segments).toList = joinChars (segments.map String.toList) :=
  String.toList_ofList

theorem components_append (xs ys : List String) :
    components (xs ++ ys) = components xs ++ components ys :=
  List.flatMap_append

theorem components_eq (segments : List String) :
    components segments = ((segments.map String.toList).flatMap names).map String.ofList := by
  rw [List.flatMap_map, List.map_flatMap]
  refine List.flatMap_congr fun s _ => ?_
  rw [pieces, names, List.filter_map]
  congr 2
  funext piece
  cases piece <;> simp

theorem components_joinSegments (segments : List String) :
    components [joinSegments segments] = components segments := by
  rw [components_eq, components_eq, List.map_singleton, List.flatMap_singleton,
    toList_joinSegments, names_joinChars]

/-- The text of joined segments begins like the first of them that is not empty. -/
theorem head?_joinSegments (segments : List String) :
    (joinSegments segments).toList.head? = segments.findSome? fun s => s.toList.head? := by
  rw [toList_joinSegments, head?_joinChars, List.findSome?_map]
  rfl

theorem tidy_joinSegments (segments : List String) : Tidy (joinSegments segments).toList := by
  rw [toList_joinSegments]
  exact tidy_joinChars (segments.map String.toList)

theorem joinSegments_eq (segments : List String) :
    joinSegments segments =
      (if StartsAtRoot segments then "/" else "") ++ "/".intercalate (components segments) := by
  have hstart : (joinSegments segments).toList.head? = some '/' ↔ StartsAtRoot segments := by
    rw [head?_joinSegments]
    exact Iff.rfl
  have hroot : root (joinSegments segments).toList =
      (if StartsAtRoot segments then "/" else "").toList := by
    simp only [root, hstart]
    split <;> rfl
  have hnames : (components segments).map String.toList = names (joinSegments segments).toList := by
    rw [components_eq, toList_joinSegments, names_joinChars, List.map_map]
    exact (List.map_congr_left fun name _ => String.toList_ofList).trans (List.map_id _)
  apply String.toList_inj.1
  rw [String.toList_append, String.toList_intercalate, hnames, ← hroot]
  exact (tidy_joinSegments segments).eq

theorem startsAtRoot_joined (xs ys : List String) :
    StartsAtRoot [joinSegments xs, joinSegments ys] ↔ StartsAtRoot (xs ++ ys) := by
  have hpair : ∀ a b : String, [a, b].findSome? (fun s => s.toList.head?) =
      a.toList.head?.or b.toList.head? := by
    intro a b
    rw [← List.singleton_append, List.findSome?_append, List.findSome?_singleton,
      List.findSome?_singleton]
  rw [StartsAtRoot, StartsAtRoot, hpair, head?_joinSegments, head?_joinSegments,
    List.findSome?_append]

theorem components_joined (xs ys : List String) :
    components [joinSegments xs, joinSegments ys] = components (xs ++ ys) := by
  have hparts : components [joinSegments xs, joinSegments ys] =
      components [joinSegments xs] ++ components [joinSegments ys] :=
    components_append [joinSegments xs] [joinSegments ys]
  rw [hparts, components_joinSegments, components_joinSegments, components_append]

theorem joinSegments_congr {xs ys : List String} (hroot : StartsAtRoot xs ↔ StartsAtRoot ys)
    (hcomponents : components xs = components ys) : joinSegments xs = joinSegments ys := by
  simp only [joinSegments_eq, hroot, hcomponents]

/-- Joined segments are their components with single separators between them, and with one in front
where the first segment that is not empty begins with one. Joining in parts is joining at once. -/
theorem joinSegments_by_components (xs : List String) :
    joinSegments xs = (if StartsAtRoot xs then "/" else "") ++ "/".intercalate (components xs) ∧
      components [joinSegments xs] = components xs ∧
      ¬ ['/', '/'] <:+: (joinSegments xs).toList ∧
      ((joinSegments xs).toList.getLast? ≠ some '/' ∨ joinSegments xs = "/") ∧
      joinSegments [joinSegments xs] = joinSegments xs ∧
      ∀ ys, joinSegments (xs ++ ys) = joinSegments [joinSegments xs, joinSegments ys] := by
  have htidy := tidy_joinSegments xs
  refine ⟨joinSegments_eq xs, components_joinSegments xs, fun hdouble => ?_, ?_, ?_, fun ys => ?_⟩
  · have hpair := htidy.single.infix hdouble
    simp at hpair
  · by_cases hlast : (joinSegments xs).toList.getLast? = some '/'
    · exact .inr (String.toList_inj.1 (htidy.last hlast))
    · exact .inl hlast
  · have hstart : StartsAtRoot [joinSegments xs] ↔ StartsAtRoot xs := by
      rw [StartsAtRoot, StartsAtRoot, List.findSome?_singleton, head?_joinSegments]
    exact joinSegments_congr hstart (components_joinSegments xs)
  · exact joinSegments_congr (startsAtRoot_joined xs ys).symm (components_joined xs ys).symm

end Segments

end LaunchPlan.Path
