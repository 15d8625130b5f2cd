import LaunchPlan.FileSession
import LaunchPlan.Proofs.Runs
import Mathlib.Data.List.Basic

/-!
# Trees of which files change

Where a path leads to does not depend on the files that are there, if it leads anywhere. So what reading
a file gives is decided by the time of its last change, as long as no file has two contents with one
time.
-/

namespace LaunchPlan

namespace Tree

variable {tree tree' : Tree} {location other : Location} {node : Node} {path : String}

/-! ## Nodes -/

theorem find?_map_of_ne (nodes : List (Location × Node)) (h : other ≠ location) :
    ((nodes.map fun (l, n) => if l = location then (l, node) else (l, n)).find?
      fun (l, _) => l = other) = nodes.find? fun (l, _) => l = other := by
  induction nodes with
  | nil => rfl
  | cons p nodes ih =>
    obtain ⟨there, n⟩ := p
    rw [List.map_cons, List.find?_cons, List.find?_cons, ih]
    by_cases hthere : there = location
    · simp only [hthere, if_true, decide_eq_false h.symm]
    · simp only [hthere, if_false]

theorem node?_put_of_ne (h : other ≠ location) :
    (tree.put location node).node? other = tree.node? other := by
  unfold put
  split
  · simp only [node?, find?_map_of_ne tree.nodes h]
  · simp [node?, List.find?_append, h.symm]

@[simp] theorem current_put : (tree.put location node).current = tree.current := by
  unfold put
  split <;> rfl

theorem node?_remove_self (h : location ≠ []) : (tree.remove location).node? location = none := by
  have he : location.isEmpty = false := by simpa using h
  simp [node?, remove, he, List.find?_eq_none]

theorem node?_remove_of_ne (h : other ≠ location) :
    (tree.remove location).node? other = tree.node? other := by
  have hfind : (tree.nodes.filter fun (l, _) => l ≠ location).find? (fun (l, _) => l = other) =
      tree.nodes.find? fun (l, _) => l = other := by
    rw [List.find?_filter]
    congr 1
    funext p
    by_cases hp : p.1 = other <;> simp [hp, h]
  simp only [node?, remove, hfind]

theorem node?_nil : tree.node? [] = some .directory := rfl

/-! ## Paths -/

/-- Where a piece of a path leads to, if it leads anywhere. -/
def enter (location : Location) (piece : String) : Location :=
  if piece = "" || piece = "." then location
  else if piece = ".." then location.dropLast
  else location ++ [piece]

/-- Where a path leads to does not depend on the tree, if it leads anywhere. -/
theorem follow_ok {start : Location} {pieces : List String}
    (h : tree.follow start pieces = .ok location) : location = pieces.foldl enter start := by
  induction pieces generalizing start with
  | nil =>
    rw [follow] at h
    exact (Except.ok.inj h).symm
  | cons piece rest ih =>
    rw [follow] at h
    split at h
    · rw [List.foldl_cons, enter]
      split_ifs at h ⊢
      all_goals exact ih h
    all_goals cases h

theorem locate_unique (hcurrent : tree'.current = tree.current) (h : tree.locate path = .ok location)
    (h' : tree'.locate path = .ok other) : other = location := by
  unfold locate at h h'
  split_ifs at h h'
  rw [follow_ok h, follow_ok h', start, start, hcurrent]

/-! ## What reading gives -/

/-- What is not a file is the same in both trees. -/
structure DiffersInFiles (tree tree' : Tree) : Prop where
  current : tree'.current = tree.current
  others : ∀ (location : Location) (node : Node), (∀ content time, node ≠ .file content time) →
    (tree'.node? location = some node ↔ tree.node? location = some node)

instance : IsPreorder Tree DiffersInFiles where
  refl _ := ⟨rfl, fun _ _ _ => Iff.rfl⟩
  trans _ _ _ h k := {
    current := k.current.trans h.current
    others := fun location node hnode =>
      (k.others location node hnode).trans (h.others location node hnode) }

theorem DiffersInFiles.symm (h : DiffersInFiles tree tree') : DiffersInFiles tree' tree where
  current := h.current.symm
  others location node hnode := (h.others location node hnode).symm

/-- A file that has the same time in both trees has the same content. -/
def DatedAlike (tree tree' : Tree) : Prop :=
  ∀ (location : Location) (content content' : ByteArray) (time : Nat),
    tree.node? location = some (.file content time) →
    tree'.node? location = some (.file content' time) → content = content'

theorem modified_ok {time : Nat} (h : tree.modified path = .ok time) :
    ∃ location node, tree.locate path = .ok location ∧ tree.node? location = some node ∧
      ((∃ content, node = .file content time) ∨ (∀ content time, node ≠ .file content time)) := by
  rw [modified] at h
  cases hlocate : tree.locate path with
  | error e =>
    rw [hlocate] at h
    cases h
  | ok location =>
    rw [hlocate] at h
    simp only [bind, Except.bind] at h
    cases hnode : tree.node? location with
    | none =>
      rw [hnode] at h
      cases h
    | some node =>
      rw [hnode] at h
      refine ⟨location, node, rfl, hnode, ?_⟩
      cases node with
      | file content modified =>
        obtain rfl : modified = time := Except.ok.inj h
        exact .inl ⟨content, rfl⟩
      | directory | program | nullDevice | descriptor => exact .inr nofun

theorem readText_congr (hlocate : tree'.locate path = tree.locate path)
    (hnode : ∀ location, tree.locate path = .ok location →
      tree'.node? location = tree.node? location) :
    tree'.readText path = tree.readText path := by
  rw [readText, readText, readBytes, readBytes, hlocate]
  cases h : tree.locate path with
  | error e => rfl
  | ok location =>
    simp only [bind, Except.bind]
    rw [hnode location h]

/-- As long as a file has the same time, reading it gives the same. -/
theorem readText_of_modified {time : Nat} (hfiles : DiffersInFiles tree tree')
    (hdated : DatedAlike tree tree') (h : tree.modified path = .ok time)
    (h' : tree'.modified path = .ok time) : tree'.readText path = tree.readText path := by
  obtain ⟨location, node, hlocate, hnode, hkind⟩ := modified_ok h
  obtain ⟨other, node', hlocate', hnode', hkind'⟩ := modified_ok h'
  obtain rfl : other = location := locate_unique hfiles.current hlocate hlocate'
  refine readText_congr (hlocate'.trans hlocate.symm) fun there hthere => ?_
  obtain rfl : other = there := Except.ok.inj (hlocate.symm.trans hthere)
  rcases hkind with ⟨content, rfl⟩ | hother
  · rcases hkind' with ⟨content', rfl⟩ | hother'
    · rw [hnode, hnode', hdated other content content' time hnode hnode']
    · rw [hnode', ← (hfiles.others other node' hother').mp hnode']
  · rw [hnode, (hfiles.others other node hother).mpr hnode]

/-- What has no time cannot be read, for the same reason. -/
theorem readText_of_modified_error {e : IoError} (h : tree.modified path = .error e) :
    tree.readText path = .error e := by
  rw [modified] at h
  rw [readText, readBytes]
  cases hlocate : tree.locate path with
  | error e' =>
    rw [hlocate] at h
    cases h
    rfl
  | ok location =>
    rw [hlocate] at h
    simp only [bind, Except.bind] at h ⊢
    cases hnode : tree.node? location with
    | none =>
      rw [hnode] at h
      cases h
      rfl
    | some node =>
      rw [hnode] at h
      cases node <;> cases h

/-- What can be read has a time. -/
theorem exists_modified {text : String} (h : tree.readText path = .ok text) :
    ∃ time, tree.modified path = .ok time := by
  cases hmodified : tree.modified path with
  | ok time => exact ⟨time, rfl⟩
  | error e =>
    rw [readText_of_modified_error hmodified] at h
    cases h

end Tree

/-! ## Changes -/

namespace FileChange

variable {c : FileChange} {tree tree' : Tree}

/-- A change is one of what is at one location, where a file was or is, or nothing. -/
theorem apply_ok (h : c.apply tree = some tree') :
    ∃ location : Location, tree'.current = tree.current ∧
      (∀ other, other ≠ location → tree'.node? other = tree.node? other) ∧
      (∀ node, tree.node? location = some node → ∃ content time, node = .file content time) ∧
      ∀ node, tree'.node? location = some node → ∃ content time, node = .file content time := by
  cases c with
  | write location content time =>
    have hold : (tree.node? location = none ∨ ∃ content time,
        tree.node? location = some (.file content time)) ∧
        tree.put location (.file content time) = tree' := by
      rw [apply] at h
      split at h
      case h_1 hnone => exact ⟨.inl hnone, Option.some.inj h⟩
      case h_2 content' time' hfile => exact ⟨.inr ⟨content', time', hfile⟩, Option.some.inj h⟩
      case h_3 => cases h
    obtain ⟨hold, rfl⟩ := hold
    have hne : location ≠ [] := by
      rintro rfl
      simp [Tree.node?_nil] at hold
    refine ⟨location, Tree.current_put, fun _ => Tree.node?_put_of_ne, fun node hnode => ?_,
      fun node hnode => ?_⟩
    · obtain hnone | ⟨content', time', hfile⟩ := hold
      · simp [hnone] at hnode
      · exact ⟨content', time', Option.some.inj (hnode.symm.trans hfile)⟩
    · rw [Tree.node?_put_self _ _ hne] at hnode
      exact ⟨content, time, (Option.some.inj hnode).symm⟩
  | remove location =>
    rw [apply] at h
    split at h
    case h_1 content time hfile =>
      obtain rfl := Option.some.inj h
      have hne : location ≠ [] := by
        rintro rfl
        simp [Tree.node?_nil] at hfile
      refine ⟨location, rfl, fun _ => Tree.node?_remove_of_ne, fun node hnode => ?_,
        fun node hnode => ?_⟩
      · exact ⟨content, time, Option.some.inj (hnode.symm.trans hfile)⟩
      · simp [Tree.node?_remove_self hne] at hnode
    case h_2 => cases h

theorem differsInFiles (h : c.apply tree = some tree') : tree.DiffersInFiles tree' := by
  obtain ⟨location, hcurrent, hother, hold, hnew⟩ := apply_ok h
  refine ⟨hcurrent, fun there node hnode => ?_⟩
  by_cases hthere : there = location
  · subst hthere
    constructor
    · intro hfound
      obtain ⟨content, time, hfile⟩ := hnew node hfound
      exact absurd hfile (hnode content time)
    · intro hfound
      obtain ⟨content, time, hfile⟩ := hold node hfound
      exact absurd hfile (hnode content time)
  · rw [hother there hthere]

end FileChange

/-! ## Runs by which files change -/

section

variable {σ α : Type} {step : σ → α → Option σ} {tree : σ → Tree} {change? : α → Option FileChange}
  {start s : σ} {steps : List α}

/-- By a step files change as it says, or not at all. -/
def ChangesFiles (step : σ → α → Option σ) (tree : σ → Tree) (change? : α → Option FileChange) :
    Prop :=
  ∀ s a s', step s a = some s' →
    tree s' = tree s ∨ ∃ c, change? a = some c ∧ c.apply (tree s) = some (tree s')

/-- The trees that a run passes. -/
def TreesOf (step : σ → α → Option σ) (tree : σ → Tree) (start : σ) (steps : List α) (t : Tree) :
    Prop :=
  ∃ before s, Passes step start steps before s ∧ tree s = t

/-- Among the trees, a file that has the same time has the same content. -/
def Dated (trees : Tree → Prop) : Prop :=
  ∀ t t', trees t → trees t' → t.DatedAlike t'

theorem TreesOf.append {more : List α} {t : Tree} (h : TreesOf step tree start steps t) :
    TreesOf step tree start (steps ++ more) t := by
  obtain ⟨before, s, hpasses, rfl⟩ := h
  exact ⟨before, s, hpasses.append, rfl⟩

theorem Dated.mono {trees trees' : Tree → Prop} (h : Dated trees') (hle : ∀ t, trees t → trees' t) :
    Dated trees :=
  fun t t' ht ht' => h t t' (hle t ht) (hle t' ht')

/-- What the changes of a run keep holds of the tree. -/
theorem ChangesFiles.tree_of_run (hstep : ChangesFiles step tree change?) {P : Tree → Prop}
    (hchange : ∀ a ∈ steps, ∀ c, change? a = some c → ∀ t t', c.apply t = some t' → P t → P t')
    (h : steps.foldlM step start = some s) (hstart : P (tree start)) : P (tree s) := by
  refine run_invariant (P := fun steps s => (∀ a ∈ steps, ∀ c, change? a = some c →
    ∀ t t', c.apply t = some t' → P t → P t') → P (tree s)) (fun _ => hstart) ?_ h hchange
  intro steps s a s' _ hs ha hchange
  have hP : P (tree s) := hs fun b hb => hchange b (List.mem_append_left _ hb)
  obtain hsame | ⟨c, hc, happly⟩ := hstep s a s' ha
  · rwa [hsame]
  · exact hchange a (by simp) c hc _ _ happly hP

theorem ChangesFiles.differsInFiles (hstep : ChangesFiles step tree change?)
    (h : steps.foldlM step start = some s) : (tree start).DiffersInFiles (tree s) :=
  hstep.tree_of_run (P := (tree start).DiffersInFiles)
    (fun _ _ _ _ _ _ happly ht => IsTrans.trans _ _ _ ht (FileChange.differsInFiles happly)) h (refl _)

/-- At two moments at which a file has the same time, reading it gives the same. -/
theorem ChangesFiles.readText_eq (hstep : ChangesFiles step tree change?)
    (hdated : Dated (TreesOf step tree start steps)) {before before' : List α} {s s' : σ}
    (h : Passes step start steps before s) (h' : Passes step start steps before' s') {key : String}
    {time : Nat} (htime : (tree s).modified key = .ok time)
    (htime' : (tree s').modified key = .ok time) :
    (tree s').readText key = (tree s).readText key := by
  have hfiles : (tree s).DiffersInFiles (tree s') :=
    IsTrans.trans _ _ _ (hstep.differsInFiles h.run).symm (hstep.differsInFiles h'.run)
  exact Tree.readText_of_modified hfiles
    (hdated _ _ ⟨before, s, h, rfl⟩ ⟨before', s', h', rfl⟩) htime htime'

end

end LaunchPlan
