import LaunchPlan.Proofs.FileChanges

/-!
# Texts that are kept

A text is kept for the time that the file had when it was read. While files change and launch files are
loaded, one after the other, a text that is kept for the time that a file has is therefore the text of
the file, and loading with and without what is kept gives the same.
-/

namespace LaunchPlan

namespace LaunchFiles

variable {files : LaunchFiles} {tree : Tree} {key text : String} {modified : Nat} {f g : KeptFile}

theorem of_text? (h : files.text? key modified = some text) :
    ∃ f ∈ files, f.key = key ∧ f.modified = modified ∧ f.text = text := by
  obtain ⟨f, hfind, h⟩ := Option.bind_eq_some_iff.mp h
  obtain ⟨hmodified, h⟩ := Option.ite_none_right_eq_some.mp h
  exact ⟨f, List.mem_of_find?_eq_some hfind, by simpa using List.find?_some hfind, hmodified,
    Option.some.inj h⟩

theorem mem_keep (h : f ∈ files.keep g) : f = g ∨ f ∈ files :=
  (List.mem_cons.mp h).imp_right List.mem_of_mem_filter

/-- No text that is kept for the time that a file has is another one than that of the file. -/
def Fresh (files : LaunchFiles) (tree : Tree) : Prop :=
  ∀ f ∈ files, tree.modified f.key = .ok f.modified → tree.readText f.key = .ok f.text

theorem Fresh.read (h : files.Fresh tree) (key : String) :
    (files.read tree key).1 = tree.readText key := by
  rw [LaunchFiles.read]
  cases hmodified : tree.modified key with
  | error e => exact (Tree.readText_of_modified_error hmodified).symm
  | ok modified =>
    cases htext : files.text? key modified with
    | none => cases hread : tree.readText key <;> simp [htext]
    | some text =>
      obtain ⟨f, hf, rfl, rfl, rfl⟩ := of_text? htext
      simp [htext, h f hf hmodified]

theorem Fresh.load (h : files.Fresh tree) (locator : String) (including : Option String) :
    (files.load tree locator including).1 = Source.files.load tree locator including := by
  have hload : Source.files.load tree locator including =
      (Source.fileKey tree locator including).bind fun key =>
        Source.ofFile key (tree.readText key) := rfl
  rw [LaunchFiles.load, hload]
  cases hkey : Source.fileKey tree locator including with
  | error cause => rfl
  | ok key => exact congrArg (Source.ofFile key) (h.read key)

/-- What is kept after a load was kept before, or is what the file is at this time. -/
theorem mem_load {locator : String} {including : Option String}
    (hf : f ∈ (files.load tree locator including).2) :
    f ∈ files ∨ tree.modified f.key = .ok f.modified ∧ tree.readText f.key = .ok f.text := by
  rw [LaunchFiles.load] at hf
  cases hkey : Source.fileKey tree locator including with
  | error cause =>
    rw [hkey] at hf
    exact .inl hf
  | ok key =>
    rw [hkey] at hf
    simp only [LaunchFiles.read] at hf
    cases hmodified : tree.modified key with
    | error e => simp_all
    | ok modified =>
      cases htext : files.text? key modified with
      | some text => simp_all
      | none =>
        cases hread : tree.readText key with
        | error e => simp_all
        | ok text =>
          simp only [hmodified, htext, hread] at hf
          obtain rfl | hf := mem_keep hf
          · exact .inr ⟨hmodified, hread⟩
          · exact .inl hf

end LaunchFiles

/-! ## Sessions -/

/-- The change of files that is made. -/
def Visit.change? : Visit → Option FileChange
  | .change c => some c
  | .load .. => none

namespace FileSession

variable {start s : FileSession} {visits : List Visit}

theorem changesFiles : ChangesFiles step tree Visit.change? := by
  intro s v s' h
  cases v with
  | change c =>
    obtain ⟨tree, hc, rfl⟩ := Option.map_eq_some_iff.mp h
    exact .inr ⟨c, rfl, hc⟩
  | load locator including =>
    cases h
    exact .inl rfl

/-- A kept text is that of the file at the moment at which the file had the time it is kept for. -/
theorem kept_of_run (h : start.run visits = some s) (hstart : start.kept = []) :
    ∀ f ∈ s.kept, ∃ before s₁, Passes step start visits before s₁ ∧
      s₁.tree.modified f.key = .ok f.modified ∧ s₁.tree.readText f.key = .ok f.text := by
  refine run_invariant (P := fun visits s => ∀ f ∈ s.kept, ∃ before s₁,
    Passes step start visits before s₁ ∧
      s₁.tree.modified f.key = .ok f.modified ∧ s₁.tree.readText f.key = .ok f.text)
    (by simp [hstart]) ?_ h
  intro visits s v s' hrun hs hstep f hf
  have hkept : f ∈ s.kept ∨
      s.tree.modified f.key = .ok f.modified ∧ s.tree.readText f.key = .ok f.text := by
    cases v with
    | change c =>
      obtain ⟨tree, -, rfl⟩ := Option.map_eq_some_iff.mp hstep
      exact .inl hf
    | load locator including =>
      cases hstep
      exact LaunchFiles.mem_load hf
  obtain hf | hnow := hkept
  · obtain ⟨before, s₁, hpasses, hwas⟩ := hs f hf
    exact ⟨before, s₁, hpasses.append, hwas⟩
  · exact ⟨visits, s, (Passes.last hrun).append, hnow⟩

theorem fresh_of_run (h : start.run visits = some s) (hstart : start.kept = [])
    (hdated : Dated (TreesOf step tree start visits)) : s.kept.Fresh s.tree := by
  intro f hf hmodified
  obtain ⟨before, s₁, hpasses, hmodified₁, htext⟩ := kept_of_run h hstart f hf
  rw [changesFiles.readText_eq hdated hpasses (.last h) hmodified₁ hmodified, htext]

end FileSession

end LaunchPlan
