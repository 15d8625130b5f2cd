import LaunchPlan.Parameters
import LaunchPlan.Proofs.LastValues

/-!
# Parameter files read flat

What a parameter file holds for a node can be said without the order in which it is put together: the
leaves of the sections that are meant for the node, depth first, each named by the keys on the way to
it; and each name once, where it first comes, with the value that comes last. A file is refused only
for a section that is meant for the node, and then for the first that is at fault.
-/

namespace LaunchPlan.Parameters

open Yaml (Value)

mutual

/-- The values in the entries of a mapping that are no mappings themselves, depth first, each with the
keys on the way to it. -/
def leaves : List (Value × Value) → List (List Value × Value)
  | [] => []
  | (key, value) :: rest =>
    (leavesOf value).map (fun (path, leaf) => (key :: path, leaf)) ++ leaves rest

def leavesOf : Value → List (List Value × Value)
  | .mapping entries => leaves entries
  | value => [([], value)]

end

/-- The parameter that a leaf below `scope` is. There is none when one of the keys on the way to it has
no text. -/
def parameterOf? (scope : String) (leaf : List Value × Value) : Option (String × String) :=
  (leaf.1.mapM keyText?).map fun keys => (keys.foldl nameBelow scope, valueText leaf.2)

theorem parameterOf?_cons (scope : String) (key : Value) (path : List Value) (leaf : Value) :
    parameterOf? scope (key :: path, leaf) =
      (keyText? key).bind fun text => parameterOf? (nameBelow scope text) (path, leaf) := by
  simp only [parameterOf?, List.mapM_cons, Option.bind_eq_bind, Option.pure_def]
  cases keyText? key with
  | none => rfl
  | some text => cases path.mapM keyText? <;> rfl

/-- The leaves of an entry are parameters below its name, if its key has a text. -/
theorem filterMap_entry (scope : String) (key : Value) (leaves : List (List Value × Value)) :
    (leaves.map fun (path, leaf) => (key :: path, leaf)).filterMap (parameterOf? scope) =
      match keyText? key with
      | none => []
      | some text => leaves.filterMap (parameterOf? (nameBelow scope text)) := by
  rw [List.filterMap_map]
  cases hkey : keyText? key with
  | none => simp [parameterOf?_cons, hkey]
  | some text =>
    refine List.filterMap_congr fun leaf _ => ?_
    rw [Function.comp_apply, parameterOf?_cons, hkey, Option.bind_some]

mutual

/-- Adding the entries of a mapping is setting the parameters that its leaves are, one by one. -/
theorem addEntries_eq (scope : String) : (entries : List (Value × Value)) → (done : Bindings) →
    addEntries scope entries done =
      done.setAll ((leaves entries).filterMap (parameterOf? scope))
  | [], done => by simp [addEntries, leaves, Bindings.setAll]
  | (key, value) :: rest, done => by
    rw [addEntries, leaves, List.filterMap_append, filterMap_entry, Bindings.setAll_append]
    cases hkey : keyText? key with
    | none => exact addEntries_eq scope rest done
    | some text =>
      rw [← addValue_eq (nameBelow scope text) value done]
      exact addEntries_eq scope rest _

theorem addValue_eq (name : String) : (value : Value) → (done : Bindings) →
    addValue name value done = done.setAll ((leavesOf value).filterMap (parameterOf? name))
  | .mapping entries, done => by
    rw [addValue, leavesOf]
    exact addEntries_eq name entries done
  | .null, done | .bool _, done | .int _, done | .float _, done | .string _, done
  | .sequence _, done | .tagged _ _, done => by
    rfl

end

/-! ## Sections -/

/-- The sections that are meant for a node, in order: their names are texts that apply to it. -/
def applicable (node : Option String) (sections : List (Value × Value)) : List (String × Value) :=
  sections.filterMap fun
    | (.string name, body) => if applies name node then some (name, body) else none
    | _ => none

/-- What a section keeps below its parameter key is there, and no mapping. -/
def Faulty (body : Value) : Prop :=
  ∃ value, sectionBody? body = some value ∧ ∀ entries, value ≠ .mapping entries

/-- The parameters that the leaves of a section are, in order. -/
def parametersIn (body : Value) : List (String × String) :=
  match sectionBody? body with
  | some (.mapping entries) => (leaves entries).filterMap (parameterOf? "")
  | _ => []

theorem addSection_of_not_faulty {body : Value} (h : ¬ Faulty body) (name : String)
    (done : Bindings) : addSection name body done = .ok (done.setAll (parametersIn body)) := by
  rw [addSection, parametersIn]
  cases hbody : sectionBody? body with
  | none => rfl
  | some value =>
    by_cases hmapping : ∃ entries, value = .mapping entries
    · obtain ⟨entries, rfl⟩ := hmapping
      exact congrArg Except.ok (addEntries_eq "" entries done)
    · exact absurd ⟨value, hbody, fun entries hvalue => hmapping ⟨entries, hvalue⟩⟩ h

theorem addSection_of_faulty {body : Value} (h : Faulty body) (name : String) (done : Bindings) :
    addSection name body done = .error (.notAMapping name) := by
  obtain ⟨value, hbody, hvalue⟩ := h
  rw [addSection, hbody]
  cases value with
  | mapping entries => exact absurd rfl (hvalue entries)
  | _ => rfl

/-- Sections that are not meant for the node are passed over. -/
theorem addSections_eq (node : Option String) (sections : List (Value × Value)) (done : Bindings) :
    addSections node sections done =
      (applicable node sections).foldlM (fun done s => addSection s.1 s.2 done) done := by
  induction sections generalizing done with
  | nil => rfl
  | cons entry rest ih =>
    obtain ⟨key, body⟩ := entry
    cases key with
    | string name =>
      by_cases happlies : applies name node = true
      · have hhead : applicable node ((.string name, body) :: rest) =
            (name, body) :: applicable node rest := by simp [applicable, happlies]
        rw [addSections, if_pos happlies, hhead, List.foldlM_cons]
        exact congrArg (addSection name body done >>= ·) (funext fun done => ih done)
      · have hhead : applicable node ((.string name, body) :: rest) = applicable node rest := by
          simp [applicable, happlies]
        rw [addSections, if_neg happlies, hhead]
        exact ih done
    | _ => exact ih done

/-- The first section at fault has this name. -/
def FirstFault (sections : List (String × Value)) (name : String) : Prop :=
  ∃ before body after, sections = before ++ (name, body) :: after ∧
    (∀ s ∈ before, ¬ Faulty s.2) ∧ Faulty body

theorem firstFault_cons {s : String × Value} {rest : List (String × Value)} {name : String} :
    FirstFault (s :: rest) name ↔
      (Faulty s.2 ∧ s.1 = name) ∨ (¬ Faulty s.2 ∧ FirstFault rest name) := by
  constructor
  · rintro ⟨before, body, after, hsplit, hbefore, hbody⟩
    cases before with
    | nil =>
      obtain ⟨rfl, -⟩ := List.cons.inj hsplit
      exact .inl ⟨hbody, rfl⟩
    | cons r before =>
      obtain ⟨rfl, hrest⟩ := List.cons.inj hsplit
      have hs : ¬ Faulty s.2 := hbefore s (by simp)
      exact .inr ⟨hs, before, body, after, hrest, fun q hq => hbefore q (by simp [hq]), hbody⟩
  · rintro (⟨hs, rfl⟩ | ⟨hs, before, body, after, rfl, hbefore, hbody⟩)
    · exact ⟨[], s.2, rest, rfl, by simp, hs⟩
    · exact ⟨s :: before, body, after, rfl, List.forall_mem_cons.2 ⟨hs, hbefore⟩, hbody⟩

/-- Sections are added when none is at fault, and then all of them. -/
theorem foldlM_addSection_ok_iff {sections : List (String × Value)} {done b : Bindings} :
    sections.foldlM (fun done s => addSection s.1 s.2 done) done = .ok b ↔
      (∀ s ∈ sections, ¬ Faulty s.2) ∧
        b = done.setAll (sections.flatMap fun s => parametersIn s.2) := by
  induction sections generalizing done with
  | nil =>
    constructor
    · intro h
      cases h
      exact ⟨by simp, rfl⟩
    · rintro ⟨-, rfl⟩
      rfl
  | cons s rest ih =>
    rw [List.foldlM_cons, List.forall_mem_cons, List.flatMap_cons, Bindings.setAll_append]
    by_cases hs : Faulty s.2
    · rw [addSection_of_faulty hs]
      constructor
      · intro h
        cases h
      · rintro ⟨⟨hno, -⟩, -⟩
        exact absurd hs hno
    · rw [addSection_of_not_faulty hs, and_iff_right hs]
      exact ih

/-- Adding sections fails for the first one at fault. -/
theorem foldlM_addSection_error_iff {sections : List (String × Value)} {done : Bindings}
    {fault : ParamFileFault} :
    sections.foldlM (fun done s => addSection s.1 s.2 done) done = .error fault ↔
      ∃ name, FirstFault sections name ∧ fault = .notAMapping name := by
  induction sections generalizing done with
  | nil =>
    constructor
    · intro h
      cases h
    · rintro ⟨name, ⟨before, body, after, hsplit, -⟩, -⟩
      simp at hsplit
  | cons s rest ih =>
    rw [List.foldlM_cons]
    simp only [firstFault_cons]
    by_cases hs : Faulty s.2
    · rw [addSection_of_faulty hs]
      constructor
      · intro h
        cases h
        exact ⟨s.1, .inl ⟨hs, rfl⟩, rfl⟩
      · rintro ⟨name, ⟨-, rfl⟩ | ⟨hno, -⟩, rfl⟩
        · rfl
        · exact absurd hs hno
    · rw [addSection_of_not_faulty hs]
      simp only [hs, false_and, not_false_eq_true, true_and, false_or]
      exact ih

theorem load_eq {tree : Tree} {path text : String} {sections : List (Value × Value)}
    (htext : tree.readText path = .ok text) (hyaml : Yaml.read text = .ok (.mapping sections))
    (node : Option String) :
    load tree path node =
      ((applicable node sections).foldlM (fun done s => addSection s.1 s.2 done) []).mapError
        (.invalidParamFile path) := by
  rw [← addSections_eq, load, htext]
  change (ofText node text).mapError _ = _
  rw [ofText, hyaml]
  rfl

/-- What a file that is a mapping holds for a node. It is refused exactly for a section that is meant
for the node and at fault, and names the first of these. Otherwise it holds the parameters that the
leaves of the sections for the node are, each name once, where it first comes, with the value that
comes last. What other sections hold makes no difference. -/
theorem load_flat {tree : Tree} {path text : String} {sections : List (Value × Value)}
    (htext : tree.readText path = .ok text) (hyaml : Yaml.read text = .ok (.mapping sections))
    (node : Option String) :
    (∀ b, load tree path node = .ok b ↔ (∀ s ∈ applicable node sections, ¬ Faulty s.2) ∧
      Bindings.MergeOf ((applicable node sections).flatMap fun s => parametersIn s.2) b) ∧
    (∀ e, load tree path node = .error e ↔ ∃ name,
      FirstFault (applicable node sections) name ∧ e = .invalidParamFile path (.notAMapping name)) ∧
    ∀ tree' text' sections', tree'.readText path = .ok text' →
      Yaml.read text' = .ok (.mapping sections') →
      applicable node sections' = applicable node sections →
      load tree' path node = load tree path node := by
  refine ⟨fun b => ?_, fun e => ?_, fun tree' text' sections' htext' hyaml' happlicable => ?_⟩
  · rw [load_eq htext hyaml, Bindings.mergeOf_iff, Bindings.ofPairs_eq,
      ← foldlM_addSection_ok_iff]
    cases (applicable node sections).foldlM (fun done s => addSection s.1 s.2 done) [] <;>
      simp [Except.mapError]
  · have hfirst : ∀ fault, (applicable node sections).foldlM
        (fun done s => addSection s.1 s.2 done) [] = .error fault ↔
          ∃ name, FirstFault (applicable node sections) name ∧ fault = .notAMapping name :=
      fun fault => foldlM_addSection_error_iff
    rw [load_eq htext hyaml]
    constructor
    · intro h
      cases hrun : (applicable node sections).foldlM (fun done s => addSection s.1 s.2 done) [] with
      | ok b => rw [hrun] at h; cases h
      | error fault =>
        obtain ⟨name, hname, rfl⟩ := (hfirst fault).1 hrun
        rw [hrun] at h
        cases h
        exact ⟨name, hname, rfl⟩
    · rintro ⟨name, hname, rfl⟩
      rw [(hfirst _).2 ⟨name, hname, rfl⟩]
      rfl
  · rw [load_eq htext hyaml, load_eq htext' hyaml', happlicable]

/-- The sections of a text, where it is a mapping. -/
def sectionsOf (text : String) : List (Value × Value) :=
  match Yaml.read text with
  | .ok (.mapping sections) => sections
  | _ => []

theorem read_eq_sectionsOf {text : String} (h : (sectionsOf text).isEmpty = false) :
    Yaml.read text = .ok (.mapping (sectionsOf text)) := by
  rw [sectionsOf] at *
  split at h
  · assumption
  · cases h

/-- A section for all nodes, one for a lidar that keeps no mapping, and one for a base. -/
def fleetText : String :=
  "/**: \x7bros__parameters: \x7ba.b: 1, a: \x7bb: 2, c: [x, 3]\x7d, null: 4\x7d\x7d\n" ++
  "lidar: \x7bros__parameters: 7\x7d\n" ++
  "/fleet/base: \x7bros__parameters: \x7ba: \x7bb: 5\x7d\x7d\x7d\n"

def fleetTree : Tree where
  nodes := [(["fleet.yaml"], .file fleetText.toUTF8 1)]

theorem fleet_flat :
    load fleetTree "fleet.yaml" (some "base") = .ok [("a.b", "5"), ("a.c", "[\"x\",3]")] ∧
    Bindings.MergeOf [("a.b", "1"), ("a.b", "2"), ("a.c", "[\"x\",3]"), ("a.b", "5")]
      [("a.b", "5"), ("a.c", "[\"x\",3]")] ∧
    load fleetTree "fleet.yaml" none =
      .error (.invalidParamFile "fleet.yaml" (.notAMapping "lidar")) ∧
    FirstFault (applicable none (sectionsOf fleetText)) "lidar" := by
  have hreads : fleetTree.readText "fleet.yaml" = .ok fleetText ∧
      (sectionsOf fleetText).isEmpty = false ∧
      addSections (some "base") (sectionsOf fleetText) [] =
        .ok [("a.b", "5"), ("a.c", "[\"x\",3]")] ∧
      addSections none (sectionsOf fleetText) [] = .error (.notAMapping "lidar") ∧
      ((applicable (some "base") (sectionsOf fleetText)).flatMap fun s => parametersIn s.2) =
        [("a.b", "1"), ("a.b", "2"), ("a.c", "[\"x\",3]"), ("a.b", "5")] := by
    decide +kernel
  obtain ⟨htext, hsections, hbase, hall, hleaves⟩ := hreads
  have hyaml := read_eq_sectionsOf hsections
  rw [addSections_eq] at hbase hall
  have hloaded : load fleetTree "fleet.yaml" (some "base") =
      .ok [("a.b", "5"), ("a.c", "[\"x\",3]")] := by
    rw [load_eq htext hyaml, hbase]
    rfl
  have hrefused : load fleetTree "fleet.yaml" none =
      .error (.invalidParamFile "fleet.yaml" (.notAMapping "lidar")) := by
    rw [load_eq htext hyaml, hall]
    rfl
  refine ⟨hloaded, ?_, hrefused, ?_⟩
  · rw [← hleaves]
    exact ((load_flat htext hyaml (some "base")).1 _).1 hloaded |>.2
  · obtain ⟨name, hname, hsame⟩ := ((load_flat htext hyaml none).2.1 _).1 hrefused
    cases hsame
    exact hname

end LaunchPlan.Parameters
