import LaunchPlan.Proofs.KeptOutputs
import LaunchPlan.Source
import Mathlib.Data.List.Basic
import Mathlib.Logic.Relation

/-!
# The keys of descriptions

A source gives descriptions under keys: the names of those held in memory, the paths of files. While
the files stay there are finitely many keys, so a chain of descriptions without a repeated key is no
longer than their number, and there is room below it for the keys that it does not have.
-/

namespace LaunchPlan

open Computing

variable {σ : Type}

/-- Running commands leads the machine from one state to another. -/
def Host.Leads (host : Host σ) (env : Environment) : σ → σ → Prop :=
  Relation.ReflTransGen fun v w => ∃ line, (host.run env line v).2 = w

/-- The machine of `v` has been led to that of `w`. -/
def Session.Led (host : Host σ) (env : Environment) (v w : Session σ) : Prop :=
  host.Leads env v.machine w.machine

instance (host : Host σ) (env : Environment) : IsPreorder (Session σ) (Session.Led host env) where
  refl _ := .refl
  trans _ _ _ := .trans

namespace Host

theorem output_led (host : Host σ) (env : Environment) (line : String) :
    Keeps (Session.Led host env) (host.output env line) := by
  intro s
  cases hk : s.output? line with
  | some output =>
    rw [output_of_kept hk]
    exact refl_of (Session.Led host env) s
  | none =>
    rcases hr : host.run env line s.machine with ⟨e | output, machine⟩
    · rw [output_of_error hk hr]
      exact .single ⟨line, congrArg Prod.snd hr⟩
    · rw [output_of_ok hk hr]
      exact .single ⟨line, congrArg Prod.snd hr⟩

end Host

namespace Tree

variable {tree : Tree} {location : Location}

theorem mem_ways : location ∈ tree.ways ↔
    ∃ there ∈ tree.current :: tree.nodes.map Prod.fst, location <+: there := by
  simp only [ways, List.mem_flatMap, List.mem_map, List.mem_range]
  refine exists_congr fun there => and_congr_right fun _ => ⟨?_, fun h => ?_⟩
  · rintro ⟨n, -, rfl⟩
    exact List.take_prefix n there
  · exact ⟨location.length, Nat.lt_succ_of_le h.length_le, (List.prefix_iff_eq_take.1 h).symm⟩

theorem mem_ways_of_before (h : location ∈ tree.ways) {before : Location}
    (hb : before <+: location) : before ∈ tree.ways := by
  obtain ⟨there, hthere, hl⟩ := mem_ways.1 h
  exact mem_ways.2 ⟨there, hthere, hb.trans hl⟩

theorem mem_ways_of_node? (hne : location ≠ []) (h : (tree.node? location).isSome) :
    location ∈ tree.ways := by
  refine mem_ways.2 ⟨location, List.mem_cons_of_mem _ ?_, List.prefix_rfl⟩
  have hempty : location.isEmpty = false := by simpa using hne
  simp only [node?, hempty, Bool.false_eq_true, if_false, Option.isSome_map] at h
  obtain ⟨⟨there, node⟩, hfind⟩ := Option.isSome_iff_exists.1 h
  obtain rfl : there = location := by simpa using List.find?_some hfind
  exact List.mem_map.2 ⟨_, List.mem_of_find?_eq_some hfind, rfl⟩

theorem start_mem_ways (path : String) : tree.start path ∈ tree.ways := by
  unfold start
  split
  · exact mem_ways.2 ⟨tree.current, by simp, List.nil_prefix⟩
  · exact mem_ways.2 ⟨tree.current, by simp, List.prefix_rfl⟩

theorem follow_mem_ways {pieces : List String} {reached : Location} (hl : location ∈ tree.ways)
    (h : tree.follow location pieces = .ok reached) : reached ∈ tree.ways := by
  induction pieces generalizing location with
  | nil =>
    cases h
    exact hl
  | cons piece rest ih =>
    unfold follow at h
    split at h
    · split_ifs at h with hstay hup hlong hnode
      · exact ih hl h
      · have hup : location.dropLast <+: location := List.dropLast_prefix location
        exact ih (mem_ways_of_before hl hup) h
      · exact ih (mem_ways_of_node? (by simp) hnode) h
    · cases h
    · cases h

/-- What a path names is on the way to something that is there. -/
theorem locate_mem_ways {path : String} {reached : Location} (h : tree.locate path = .ok reached) :
    reached ∈ tree.ways := by
  unfold locate at h
  split_ifs at h
  exact follow_mem_ways (start_mem_ways path) h

end Tree

namespace Source

/-- Every description that the source gives while these files are there has one of the keys. -/
def KeysIn (source : Source) (tree : Tree) (keys : List String) : Prop :=
  ∀ locator including loaded, source.load tree locator including = .ok loaded → loaded.key ∈ keys

variable {descriptions : List (String × Description)}

theorem mem_of_lookup? {locator : String} {description : Description}
    (h : lookup? locator descriptions = some description) :
    locator ∈ descriptions.map Prod.fst := by
  induction descriptions with
  | nil => cases h
  | cons d descriptions ih =>
    by_cases hd : d.1 = locator
    · simp [hd]
    · rw [lookup?, if_neg hd] at h
      exact List.mem_cons_of_mem _ (ih h)

/-- What is held in memory is loaded under its name. -/
theorem memory_load_ok {tree : Tree} {locator : String} {including : Option String}
    {loaded : Loaded} (h : (memory descriptions).load tree locator including = .ok loaded) :
    loaded.key = locator ∧ locator ∈ descriptions.map Prod.fst := by
  simp only [memory] at h
  cases hl : lookup? locator descriptions with
  | none => simp [hl] at h
  | some description =>
    rw [hl] at h
    cases h
    exact ⟨rfl, mem_of_lookup? hl⟩

theorem memory_keysIn (descriptions : List (String × Description)) (tree : Tree) :
    (memory descriptions).KeysIn tree (descriptions.map Prod.fst) := by
  intro locator including loaded h
  obtain ⟨rfl, hmem⟩ := memory_load_ok h
  exact hmem

theorem memory_nesting (descriptions : List (String × Description)) (tree : Tree) :
    (descriptions.map Prod.fst).length ≤ (memory descriptions).nesting tree :=
  Nat.le_of_eq (List.length_map _)

theorem ofFile_ok {key : String} {text : Except IoError String} {loaded : Loaded}
    (h : ofFile key text = .ok loaded) : loaded.key = key := by
  unfold ofFile at h
  split at h
  · cases h
  · split at h
    · cases h
      rfl
    · cases h

/-- A file is loaded under the path of a location. -/
theorem files_load_ok {tree : Tree} {locator : String} {including : Option String} {loaded : Loaded}
    (h : files.load tree locator including = .ok loaded) :
    ∃ location, tree.locate (filePath locator including) = .ok location ∧
      loaded.key = Path.ofSteps location := by
  change (fileKey tree locator including >>= fun key => ofFile key (tree.readText key)) = _ at h
  rw [fileKey, Tree.canonical] at h
  cases hl : tree.locate (filePath locator including) with
  | error e =>
    rw [hl] at h
    cases h
  | ok location =>
    rw [hl] at h
    exact ⟨location, rfl, ofFile_ok h⟩

theorem files_keysIn (tree : Tree) : files.KeysIn tree (tree.ways.map Path.ofSteps) := by
  intro locator including loaded h
  obtain ⟨location, hl, hkey⟩ := files_load_ok h
  exact List.mem_map.2 ⟨location, Tree.locate_mem_ways hl, hkey.symm⟩

theorem files_nesting (tree : Tree) : (tree.ways.map Path.ofSteps).length ≤ files.nesting tree :=
  Nat.le_trans (Nat.le_of_eq (List.length_map _)) (Nat.le_add_right _ _)

end Source

/-- So many more descriptions may be nested as there are names outside the chain. -/
def Room (names : List String) (nesting : Nat) (chain : List String) : Prop :=
  ∀ others : List String, others.Nodup → others ⊆ names → (∀ x ∈ others, x ∉ chain) →
    others.length ≤ nesting

namespace Room

theorem of_length {names : List String} {nesting : Nat} (h : names.length ≤ nesting)
    (chain : List String) : Room names nesting chain :=
  fun _ hnodup hsub _ => Nat.le_trans (hnodup.length_le_of_subset hsub) h

/-- There is room for every name outside the chain, and one less below it. -/
theorem enter {names chain : List String} {nesting : Nat} {key : String}
    (h : Room names nesting chain) (hkey : key ∈ names) (hc : key ∉ chain) :
    ∃ below, nesting = below + 1 ∧ Room names below (chain ++ [key]) := by
  have hfits : ∀ others : List String, others.Nodup → others ⊆ names →
      (∀ x ∈ others, x ∉ chain ++ [key]) → others.length + 1 ≤ nesting := by
    intro others hnodup hsub hout
    have hnew : key ∉ others := fun hk => hout key hk (by simp)
    have hkept : ∀ x ∈ others, x ∉ chain := fun x hx hxc =>
      hout x hx (List.mem_append_left [key] hxc)
    simpa using h (key :: others) (List.nodup_cons.2 ⟨hnew, hnodup⟩)
      (List.cons_subset.2 ⟨hkey, hsub⟩) (List.forall_mem_cons.2 ⟨hc, hkept⟩)
  cases nesting with
  | zero =>
    have hempty := hfits [] List.nodup_nil (List.nil_subset names) (by simp)
    omega
  | succ below =>
    exact ⟨below, rfl, fun others hnodup hsub hout =>
      Nat.le_of_succ_le_succ (hfits others hnodup hsub hout)⟩

end Room

end LaunchPlan
