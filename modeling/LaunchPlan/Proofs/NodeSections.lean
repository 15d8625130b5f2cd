import LaunchPlan.Proofs.ParameterFiles
import Mathlib.Data.List.DropRight

/-!
# Sections for a node

A parameter file holds for a node what it holds in the sections that are meant for it. These are the
sections with a wildcard as their key, with the name of the node, and with a path that ends in this
name. A path is told by its last step, so a name that has steps itself is never taken for the end of
one: only a section with that very name is meant for it.
-/

namespace LaunchPlan.Parameters

open Yaml (Value)

/-! ## Keys -/

/-- The name of a section without the slashes at its end. -/
structure IsKey (name key : List Char) : Prop where
  name_eq : ∃ n, name = key ++ List.replicate n '/'
  last : key.getLast? ≠ some '/'

theorem isKey_dropFinalSlashes (name : List Char) : IsKey name (dropFinalSlashes name) where
  name_eq := by
    induction name using List.reverseRecOn with
    | nil => exact ⟨0, rfl⟩
    | append_singleton name c ih =>
      by_cases hc : c = '/'
      · obtain ⟨n, hn⟩ := ih
        have hdrop : dropFinalSlashes (name ++ [c]) = dropFinalSlashes name :=
          List.rdropWhile_concat_pos _ _ _ (by simpa using hc)
        refine ⟨n + 1, ?_⟩
        rw [hdrop, List.replicate_succ', ← List.append_assoc, ← hn, hc]
      · have hdrop : dropFinalSlashes (name ++ [c]) = name ++ [c] :=
          List.rdropWhile_concat_neg _ _ _ (by simpa using hc)
        exact ⟨0, by simp [hdrop]⟩
  last hlast := by
    have hne : dropFinalSlashes name ≠ [] := by
      intro hnil
      rw [hnil] at hlast
      cases hlast
    have hnot : ¬ decide ((dropFinalSlashes name).getLast hne = '/') = true :=
      List.rdropWhile_last_not (· = '/') name hne
    rw [List.getLast?_eq_some_getLast hne] at hlast
    exact hnot (decide_eq_true (Option.some.inj hlast))

theorem IsKey.eq {name key : List Char} (h : IsKey name key) : dropFinalSlashes name = key := by
  obtain ⟨⟨n, rfl⟩, hlast⟩ := h
  induction n with
  | zero =>
    rw [List.replicate_zero, List.append_nil]
    refine List.rdropWhile_eq_self_iff.2 fun hne hslash => hlast ?_
    rw [List.getLast?_eq_some_getLast hne]
    simpa using hslash
  | succ n ih =>
    rw [List.replicate_succ', ← List.append_assoc]
    exact (List.rdropWhile_concat_pos _ _ _ (by simp)).trans ih

theorem isKey_iff {name key : List Char} : IsKey name key ↔ dropFinalSlashes name = key :=
  ⟨IsKey.eq, fun h => h ▸ isKey_dropFinalSlashes name⟩

theorem lastStep?_append {step : List Char} (hstep : '/' ∉ step) (scope : List Char) :
    lastStep? (scope ++ '/' :: step) = some step := by
  have hslash : '/' ∈ scope ++ '/' :: step := by simp
  have hnot : ∀ c ∈ step.reverse, decide (c ≠ '/') = true := fun c hc =>
    decide_eq_true fun heq => hstep (heq ▸ List.mem_reverse.1 hc)
  rw [lastStep?, if_pos hslash, List.reverse_append, List.reverse_cons, List.append_assoc,
    List.takeWhile_append_of_pos hnot]
  simp

/-- The last step of a path is what follows its last slash. -/
theorem lastStep?_eq_some_iff {cs step : List Char} :
    lastStep? cs = some step ↔ '/' ∉ step ∧ '/' :: step <:+ cs := by
  constructor
  · intro h
    have hslash : '/' ∈ cs := (Option.ite_none_right_eq_some.1 h).1
    obtain ⟨after, before, hsplit, hafter⟩ :=
      List.eq_append_cons_of_mem (List.mem_reverse.2 hslash)
    obtain rfl : cs = before.reverse ++ '/' :: after.reverse := by
      simpa using congrArg List.reverse hsplit
    have hlast : '/' ∉ after.reverse := fun hmem => hafter (List.mem_reverse.1 hmem)
    rw [lastStep?_append hlast] at h
    obtain rfl := Option.some.inj h
    exact ⟨hlast, List.suffix_append _ _⟩
  · rintro ⟨hstep, scope, rfl⟩
    exact lastStep?_append hstep scope

/-! ## Sections that are meant -/

def Wildcard (key : List Char) : Prop :=
  key = ['*', '*'] ∨ key = ['/', '*', '*']

/-- A wildcard, the name of the node, or a path that ends in this name. -/
def NamedFor (node key : List Char) : Prop :=
  Wildcard key ∨ key = node ∨ '/' :: node <:+ key

/-- A wildcard, the name of the node, or a path with this name as its last step. -/
def MeantFor (node key : List Char) : Prop :=
  Wildcard key ∨ key = node ∨ '/' ∉ node ∧ '/' :: node <:+ key

instance (node : List Char) : DecidablePred (NamedFor node) := fun key => by
  unfold NamedFor Wildcard
  infer_instance

instance (node : List Char) : DecidablePred (MeantFor node) := fun key => by
  unfold MeantFor Wildcard
  infer_instance

theorem namedFor_of_step {node key : List Char} (hnode : '/' ∉ node) :
    NamedFor node key ↔ MeantFor node key := by
  simp [NamedFor, MeantFor, hnode]

/-! ## What a file holds for a node -/

/-- The section has a key of this kind. -/
def HasKey (meant : List Char → Prop) (name : String) : Prop :=
  ∃ key, IsKey name.toList key ∧ meant key

theorem hasKey_iff {meant : List Char → Prop} {name : String} :
    HasKey meant name ↔ meant (dropFinalSlashes name.toList) := by
  simp [HasKey, isKey_iff]

instance (meant : List Char → Prop) [DecidablePred meant] : DecidablePred (HasKey meant) :=
  fun _ => decidable_of_iff _ hasKey_iff.symm

theorem applies_iff {name node : String} :
    applies name (some node) = true ↔ HasKey (MeantFor node.toList) name := by
  simp [hasKey_iff, applies, MeantFor, Wildcard, lastStep?_eq_some_iff, or_assoc]

section Kept

variable (meant : String → Prop) [DecidablePred meant]

/-- The sections of a document with a name that is meant. -/
def keptSections (sections : List (Value × Value)) : List (Value × Value) :=
  sections.filter fun
    | (.string name, _) => meant name
    | _ => false

/-- What a file holds in the sections that are meant, for whatever nodes they are. -/
def loadKept (tree : Tree) (path : String) : Except ParseError Bindings := do
  let text ← (tree.readText path).mapError .io
  let held : Except ParamFileFault Bindings := do
    match ← (Yaml.read text).mapError .notYaml with
    | .mapping sections => ofValue none (.mapping (keptSections meant sections))
    | document => ofValue none document
  held.mapError (.invalidParamFile path)

end Kept

theorem applicable_eq_kept {meant : String → Prop} [DecidablePred meant] {node : String}
    (h : ∀ name, applies name (some node) = true ↔ meant name) (sections : List (Value × Value)) :
    applicable (some node) sections = applicable none (keptSections meant sections) := by
  rw [applicable, applicable, keptSections, List.filterMap_filter]
  refine List.filterMap_congr fun entry _ => ?_
  obtain ⟨key, body⟩ := entry
  cases key with
  | string name =>
    have hall : applies name none = true := rfl
    by_cases hname : meant name <;> simp [h, hname, hall]
  | _ => rfl

theorem load_eq_loadKept {meant : String → Prop} [DecidablePred meant] {node : String}
    (h : ∀ name, applies name (some node) = true ↔ meant name) (tree : Tree) (path : String) :
    load tree path (some node) = loadKept meant tree path := by
  have hvalue : ∀ document, ofValue (some node) document =
      match document with
      | .mapping sections => ofValue none (.mapping (keptSections meant sections))
      | document => ofValue none document := by
    intro document
    cases document with
    | mapping sections =>
      simp only [ofValue, addSections_eq, applicable_eq_kept h]
    | _ => rfl
  simp only [load, ofText, loadKept, hvalue]

/-- A file holds for a node what it holds in the sections that are meant for it: those with a
wildcard as their key, with the name of the node, or with a path that has this name as its last
step. Where the name has no steps itself, these are all sections that are named for the node. -/
theorem load_for_node (tree : Tree) (path node : String) :
    load tree path (some node) = loadKept (HasKey (MeantFor node.toList)) tree path ∧
      ('/' ∉ node.toList →
        load tree path (some node) = loadKept (HasKey (NamedFor node.toList)) tree path) := by
  refine ⟨load_eq_loadKept (fun name => applies_iff) tree path, fun hnode => ?_⟩
  refine load_eq_loadKept (fun name => ?_) tree path
  rw [applies_iff, hasKey_iff, hasKey_iff, namedFor_of_step hnode]

/-- A section for all nodes, one with a path, and one for another node. -/
def armText : String :=
  "/**: \x7bros__parameters: \x7bframe: map\x7d\x7d\n" ++
  "/robot/arm/driver/: \x7bros__parameters: \x7brate: 10\x7d\x7d\n" ++
  "planner: \x7bros__parameters: \x7brate: 5\x7d\x7d\n"

def armTree : Tree where
  nodes := [(["arm.yaml"], .file armText.toUTF8 1)]

/-- What the file holds for a node, for one with a name of two steps, and in the sections that are
named for the latter. -/
theorem loads_armTree :
    load armTree "arm.yaml" (some "driver") = .ok [("frame", "map"), ("rate", "10")] ∧
      load armTree "arm.yaml" (some "arm/driver") = .ok [("frame", "map")] ∧
      loadKept (HasKey (NamedFor "arm/driver".toList)) armTree "arm.yaml" =
        .ok [("frame", "map"), ("rate", "10")] := by
  decide +kernel

theorem driver_loads_named :
    '/' ∉ "driver".toList ∧
      load armTree "arm.yaml" (some "driver") =
        loadKept (HasKey (NamedFor "driver".toList)) armTree "arm.yaml" ∧
      load armTree "arm.yaml" (some "driver") = .ok [("frame", "map"), ("rate", "10")] := by
  have hnode : '/' ∉ "driver".toList := by decide
  exact ⟨hnode, (load_for_node armTree "arm.yaml" "driver").2 hnode, loads_armTree.1⟩

/-- A section with a path that ends in a name of two steps is named for the node, and left out. -/
theorem arm_driver_left_out :
    load armTree "arm.yaml" (some "arm/driver") = .ok [("frame", "map")] ∧
      ¬ ∀ tree path (node : String),
        load tree path (some node) = loadKept (HasKey (NamedFor node.toList)) tree path := by
  obtain ⟨-, hloaded, hnamed⟩ := loads_armTree
  refine ⟨hloaded, fun h => ?_⟩
  rw [h, hnamed] at hloaded
  cases hloaded

end LaunchPlan.Parameters
