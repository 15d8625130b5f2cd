import LaunchPlan.Proofs.KeptTexts

/-!
# Readings at the same time

When readings go on at the same time as files change, a file may be written after its time was looked at
and before it is read. The text is then kept for a time that was over when it was read. A reading that
uses it gives what the file was at some moment of this reading nevertheless, unless the file has got the
time back which it had before it was written.
-/

namespace LaunchPlan

/-- What the next step of a reading can be. -/
inductive Reading.Goes (r : Reading) (tree : Tree) (kept : LaunchFiles) :
    ReadingStage → LaunchFiles → Prop
  | dates {modified : Nat} (stage : r.stage = .begun) (found : tree.modified r.key = .ok modified) :
    r.Goes tree kept (.dated modified) kept
  | isAbsent {e : IoError} (stage : r.stage = .begun) (failed : tree.modified r.key = .error e) :
    r.Goes tree kept (.ended (.error e)) kept
  | hits {modified : Nat} {text : String} (stage : r.stage = .dated modified)
    (found : kept.text? r.key modified = some text) : r.Goes tree kept (.ended (.ok text)) kept
  | misses {modified : Nat} (stage : r.stage = .dated modified) :
    r.Goes tree kept (.missed modified) kept
  | fetches {modified : Nat} {text : String} (stage : r.stage = .missed modified)
    (read : tree.readText r.key = .ok text) : r.Goes tree kept (.fetched modified text) kept
  | isUnreadable {modified : Nat} {e : IoError} (stage : r.stage = .missed modified)
    (failed : tree.readText r.key = .error e) : r.Goes tree kept (.ended (.error e)) kept
  | keeps {modified : Nat} {text : String} (stage : r.stage = .fetched modified text) :
    r.Goes tree kept (.ended (.ok text)) (kept.keep { key := r.key, text, modified })

namespace Reading

variable {r : Reading} {tree : Tree} {kept kept' : LaunchFiles} {stage : ReadingStage}

theorem goes_of_next? (h : r.next? tree kept = some (stage, kept')) : r.Goes tree kept stage kept' := by
  rw [next?] at h
  split at h
  case h_1 hstage =>
    split at h <;> cases h
    case h_1 found => exact .dates hstage found
    case h_2 failed => exact .isAbsent hstage failed
  case h_2 hstage =>
    split at h <;> cases h
    case h_1 found => exact .hits hstage found
    case h_2 => exact .misses hstage
  case h_3 hstage =>
    split at h <;> cases h
    case h_1 read => exact .fetches hstage read
    case h_2 failed => exact .isUnreadable hstage failed
  case h_4 hstage =>
    cases h
    exact .keeps hstage
  case h_5 => cases h

theorem Goes.not_ended (h : r.Goes tree kept stage kept') : r.hasEnded = false := by
  cases h <;> simp_all [hasEnded]

end Reading

namespace Readings

variable {start s s' : Readings} {steps more : List Step} {a : Step} {i : Nat} {key text : String}
  {result : Except IoError String}

/-- What a step can do. -/
inductive Moves (s : Readings) : Step → Readings → Prop
  | changes {c : FileChange} {tree : Tree} (change : c.apply s.tree = some tree) :
    s.Moves (.change c) { s with tree }
  | begins (key : String) : s.Moves (.begin key) { s with readings := s.readings ++ [{ key }] }
  | goes {i : Nat} {r : Reading} {stage : ReadingStage} {kept : LaunchFiles}
    (found : s.readings[i]? = some r) (next : r.Goes s.tree s.kept stage kept) :
    s.Moves (.go i) { s with kept, readings := s.readings.set i { r with stage } }

theorem step_moves (h : s.step a = some s') : s.Moves a s' := by
  cases a with
  | change c =>
    obtain ⟨tree, change, rfl⟩ := Option.map_eq_some_iff.mp h
    exact .changes change
  | begin key =>
    cases h
    exact .begins key
  | go i =>
    simp only [step, Option.bind_eq_bind, Option.bind_eq_some_iff] at h
    obtain ⟨r, found, ⟨stage, kept⟩, next, h⟩ := h
    cases h
    exact .goes found (Reading.goes_of_next? next)

/-! ## The course of the readings -/

/-- The change of files that is made. -/
def Step.change? : Step → Option FileChange
  | .change c => some c
  | _ => none

theorem changesFiles : ChangesFiles step tree Step.change? := by
  intro s a s' h
  cases step_moves h with
  | changes change => exact .inr ⟨_, rfl, change⟩
  | begins | goes => exact .inl rfl

/-- The reading at a place, which is one of this file, goes on. -/
def GoesOn (s : Readings) (i : Nat) (key : String) : Prop :=
  ∃ r, s.readings[i]? = some r ∧ r.key = key ∧ r.hasEnded = false

/-- No reading is lost, and one that has ended does not begin again. -/
def Proceeds (s s' : Readings) : Prop :=
  ∀ (i : Nat) (r : Reading), s.readings[i]? = some r →
    ∃ r' : Reading, s'.readings[i]? = some r' ∧ r'.key = r.key ∧
      (r.hasEnded = true → r'.hasEnded = true)

instance : IsPreorder Readings Proceeds where
  refl _ _ r hr := ⟨r, hr, rfl, id⟩
  trans _ _ _ h k i r hr := by
    obtain ⟨r₁, hr₁, hkey₁, hended₁⟩ := h i r hr
    obtain ⟨r₂, hr₂, hkey₂, hended₂⟩ := k i r₁ hr₁
    exact ⟨r₂, hr₂, hkey₂.trans hkey₁, hended₂ ∘ hended₁⟩

theorem Moves.proceeds (h : s.Moves a s') : s.Proceeds s' := by
  intro i r hr
  have hlt : i < s.readings.length := (List.getElem?_eq_some_iff.mp hr).1
  cases h with
  | changes => exact ⟨r, hr, rfl, id⟩
  | begins key => exact ⟨r, by rw [List.getElem?_append_left hlt, hr], rfl, id⟩
  | @goes j r₁ stage kept found next =>
    by_cases hij : j = i
    · subst hij
      obtain rfl : r₁ = r := Option.some.inj (found.symm.trans hr)
      exact ⟨_, List.getElem?_set_self hlt, rfl, by simp [next.not_ended]⟩
    · exact ⟨r, by rw [List.getElem?_set_ne hij, hr], rfl, id⟩

/-- A reading that goes on now and was begun before has gone on all the time. -/
theorem GoesOn.between {before after : List Step} {s₁ s₂ : Readings}
    (h₁ : Passes step start steps before s₁) (h₂ : Passes step start steps after s₂)
    (hle : before <+: after) (h : start.run steps = some s) (hbefore : s₁.GoesOn i key)
    (hnow : s.GoesOn i key) : s₂.GoesOn i key := by
  obtain ⟨r₁, hr₁, rfl, -⟩ := hbefore
  obtain ⟨r, hr, -, hopen⟩ := hnow
  have proceeds {u v : Readings} {between : List Step} (hrun : between.foldlM step u = some v) :
      u.Proceeds v := run_preorder (fun hstep => (step_moves hstep).proceeds) hrun
  obtain ⟨_, hbetween⟩ := h₁.goes_on h₂ hle
  obtain ⟨r₂, hr₂, hkey, -⟩ := proceeds hbetween i r₁ hr₁
  obtain ⟨_, hrest⟩ := h₂.goes_on (.last h) h₂.first
  obtain ⟨r', hr', -, hended⟩ := proceeds hrest i r₂ hr₂
  obtain rfl : r' = r := Option.some.inj (hr'.symm.trans hr)
  exact ⟨r₂, hr₂, hkey, by_contra fun hne => by simp [hended (by simpa using hne)] at hopen⟩

/-! ## What readings give -/

/-- At some moment at which the reading at a place, one of this file, goes on, the tree is so. -/
def Meanwhile (start : Readings) (steps : List Step) (i : Nat) (key : String) (P : Tree → Prop) :
    Prop :=
  ∃ before s, Passes step start steps before s ∧ s.GoesOn i key ∧ P s.tree

/-- At some moment at which the reading at a place goes on, reading the file at once gives this
result. -/
def GivenMeanwhile (start : Readings) (steps : List Step) (i : Nat) (key : String)
    (result : Except IoError String) : Prop :=
  Meanwhile start steps i key fun tree => tree.readText key = result

/-- A file has a time, then another one, and then the first one again. -/
def TimeReturns (start : Readings) (steps : List Step) (key : String) : Prop :=
  ∃ first between last s₁ s₂ s₃ time other, Passes step start steps first s₁ ∧
    Passes step start steps between s₂ ∧ Passes step start steps last s₃ ∧
    first <+: between ∧ between <+: last ∧ s₁.tree.modified key = .ok time ∧
    s₂.tree.modified key = .ok other ∧ other ≠ time ∧ s₃.tree.modified key = .ok time

/-- A file had this time, and at the same moment or later this text. -/
def ReadFor (start : Readings) (steps : List Step) (key : String) (modified : Nat) (text : String) :
    Prop :=
  ∃ before after s₁ s₂, Passes step start steps before s₁ ∧ Passes step start steps after s₂ ∧
    before <+: after ∧ s₁.tree.modified key = .ok modified ∧ s₂.tree.readText key = .ok text

theorem Meanwhile.append {P : Tree → Prop} (h : Meanwhile start steps i key P) :
    Meanwhile start (steps ++ more) i key P := by
  obtain ⟨before, s, hpasses, hgoes, hP⟩ := h
  exact ⟨before, s, hpasses.append, hgoes, hP⟩

theorem TimeReturns.append (h : TimeReturns start steps key) :
    TimeReturns start (steps ++ more) key := by
  obtain ⟨first, between, last, s₁, s₂, s₃, time, other, h₁, h₂, h₃, hreturns⟩ := h
  exact ⟨first, between, last, s₁, s₂, s₃, time, other, h₁.append, h₂.append, h₃.append, hreturns⟩

theorem ReadFor.append {modified : Nat} (h : ReadFor start steps key modified text) :
    ReadFor start (steps ++ more) key modified text := by
  obtain ⟨before, after, s₁, s₂, h₁, h₂, hread⟩ := h
  exact ⟨before, after, s₁, s₂, h₁.append, h₂.append, hread⟩

/-- A kept text is used for the time that the file had during this reading. It was read while the file
had this time, or later in this reading, or else the time has come back. -/
theorem ReadFor.used {modified : Nat} (h : start.run steps = some s)
    (hdated : Dated (TreesOf step tree start steps)) (hread : ReadFor start steps key modified text)
    (hmeanwhile : Meanwhile start steps i key fun tree => tree.modified key = .ok modified)
    (hnow : s.GoesOn i key) :
    GivenMeanwhile start steps i key (.ok text) ∨ TimeReturns start steps key := by
  obtain ⟨looked, read, s₁, s₂, h₁, h₂, hle, hmodified₁, htext⟩ := hread
  obtain ⟨dated, s₃, h₃, hgoes, hmodified₃⟩ := hmeanwhile
  obtain hlate | hearly := List.prefix_or_prefix_of_prefix h₃.first h₂.first
  · exact .inl ⟨read, s₂, h₂, hgoes.between h₃ h₂ hlate h hnow, htext⟩
  · obtain ⟨other, hmodified₂⟩ := Tree.exists_modified htext
    by_cases hsame : other = modified
    · subst hsame
      have hsame := changesFiles.readText_eq hdated h₂ h₃ hmodified₂ hmodified₃
      exact .inl ⟨dated, s₃, h₃, hgoes, hsame.trans htext⟩
    · exact .inr ⟨looked, read, dated, s₁, s₂, s₃, modified, other, h₁, h₂, h₃, hle, hearly,
        hmodified₁, hmodified₂, hsame, hmodified₃⟩

/-- How a reading has come to its stage. -/
def Stands (start : Readings) (steps : List Step) (i : Nat) (key : String) : ReadingStage → Prop
  | .begun => True
  | .dated modified | .missed modified =>
    Meanwhile start steps i key fun tree => tree.modified key = .ok modified
  | .fetched modified text =>
    GivenMeanwhile start steps i key (.ok text) ∧ ReadFor start steps key modified text
  | .ended result => GivenMeanwhile start steps i key result ∨ TimeReturns start steps key

theorem Stands.append {stage : ReadingStage} (h : Stands start steps i key stage) :
    Stands start (steps ++ more) i key stage := by
  cases stage with
  | begun => trivial
  | dated | missed =>
    rw [Stands] at h ⊢
    exact h.append
  | fetched => exact h.imp Meanwhile.append .append
  | ended => exact h.imp Meanwhile.append .append

/-- What is kept was read, and every reading stands where it does for a reason. -/
structure Grounded (start : Readings) (steps : List Step) (s : Readings) : Prop where
  kept : ∀ f ∈ s.kept, ReadFor start steps f.key f.modified f.text
  readings : ∀ (i : Nat) (r : Reading), s.readings[i]? = some r → Stands start steps i r.key r.stage

/-- The next step of a reading is grounded in what was before it. -/
theorem Grounded.go (h : start.run steps = some s) (hdated : Dated (TreesOf step tree start steps))
    (hs : Grounded start steps s) {r : Reading} {stage : ReadingStage} {kept : LaunchFiles}
    (found : s.readings[i]? = some r) (next : r.Goes s.tree s.kept stage kept) :
    Stands start steps i r.key stage ∧ ∀ f ∈ kept, ReadFor start steps f.key f.modified f.text := by
  have hstands := hs.readings i r found
  have hnow : s.GoesOn i r.key := ⟨r, found, rfl, next.not_ended⟩
  have hpasses : Passes step start steps steps s := .last h
  cases next with
  | dates stage found => exact ⟨⟨steps, s, hpasses, hnow, found⟩, hs.kept⟩
  | isAbsent stage failed =>
    exact ⟨.inl ⟨steps, s, hpasses, hnow, Tree.readText_of_modified_error failed⟩, hs.kept⟩
  | hits stage found =>
    rw [stage] at hstands
    obtain ⟨f, hf, hkey, rfl, rfl⟩ := LaunchFiles.of_text? found
    exact ⟨ReadFor.used h hdated (hkey ▸ hs.kept f hf) hstands hnow, hs.kept⟩
  | misses stage =>
    rw [stage] at hstands
    exact ⟨hstands, hs.kept⟩
  | fetches stage read =>
    rw [stage] at hstands
    obtain ⟨before, s₁, h₁, -, hmodified⟩ := hstands
    exact ⟨⟨⟨steps, s, hpasses, hnow, read⟩,
      before, steps, s₁, s, h₁, hpasses, h₁.first, hmodified, read⟩, hs.kept⟩
  | isUnreadable stage failed => exact ⟨.inl ⟨steps, s, hpasses, hnow, failed⟩, hs.kept⟩
  | keeps stage =>
    rw [stage] at hstands
    refine ⟨.inl hstands.1, fun f hf => ?_⟩
    obtain rfl | hf := LaunchFiles.mem_keep hf
    · exact hstands.2
    · exact hs.kept f hf

theorem grounded_of_run (h : start.run steps = some s) (hkept : start.kept = [])
    (hreadings : start.readings = []) (hdated : Dated (TreesOf step tree start steps)) :
    Grounded start steps s := by
  refine run_invariant (P := fun steps s =>
    Dated (TreesOf step tree start steps) → Grounded start steps s)
    (fun _ => ⟨by simp [hkept], by simp [hreadings]⟩) ?_ h hdated
  intro steps s a s' hrun hs hstep hdated
  have hbefore : Dated (TreesOf step tree start steps) := hdated.mono fun _ => TreesOf.append
  have hs := hs hbefore
  cases step_moves hstep with
  | changes =>
    exact ⟨fun f hf => (hs.kept f hf).append, fun i r hr => (hs.readings i r hr).append⟩
  | begins key =>
    refine ⟨fun f hf => (hs.kept f hf).append, fun i r hr => ?_⟩
    by_cases hi : i < s.readings.length
    · rw [List.getElem?_append_left hi] at hr
      exact (hs.readings i r hr).append
    · obtain rfl : r = { key } := by
        rw [List.getElem?_append_right (Nat.le_of_not_lt hi)] at hr
        exact (List.mem_singleton.mp (List.mem_of_getElem? hr))
      trivial
  | @goes j r₁ stage kept found next =>
    obtain ⟨hstands, hkept⟩ := hs.go hrun hbefore found next
    refine ⟨fun f hf => (hkept f hf).append, fun i r hr => ?_⟩
    by_cases hij : j = i
    · subst hij
      have hlt : j < s.readings.length := (List.getElem?_eq_some_iff.mp found).1
      obtain rfl := Option.some.inj ((List.getElem?_set_self hlt).symm.trans hr)
      exact hstands.append
    · rw [List.getElem?_set_ne hij] at hr
      exact (hs.readings i r hr).append

/-! ## One reading alone -/

/-- The last reading takes its next step, and goes on from there. -/
theorem run_go_last {tree : Tree} {kept kept' : LaunchFiles} {others : List Reading} {r : Reading}
    {stage : ReadingStage} {n : Nat} (next : r.next? tree kept = some (stage, kept'))
    (h : run { tree, kept := kept', readings := others ++ [{ r with stage }] }
      (List.replicate n (.go others.length)) = some s') :
    run { tree, kept, readings := others ++ [r] } (List.replicate (n + 1) (.go others.length)) =
      some s' := by
  have hstep : step { tree, kept, readings := others ++ [r] } (.go others.length) =
      some { tree, kept := kept', readings := others ++ [{ r with stage }] } := by
    simp [step, next]
  rw [run, List.replicate_succ, List.foldlM_cons, hstep]
  exact h

/-- A reading that nothing interrupts is what `LaunchFiles.read` does. -/
theorem run_alone (s : Readings) (key : String) :
    ∃ n, s.run (.begin key :: List.replicate n (.go s.readings.length)) =
      some { s with
        kept := (s.kept.read s.tree key).2
        readings := s.readings ++ [{ key, stage := .ended (s.kept.read s.tree key).1 }] } := by
  rw [LaunchFiles.read]
  cases hmodified : s.tree.modified key with
  | error e =>
    have absent : Reading.next? { key } s.tree s.kept = some (.ended (.error e), s.kept) := by
      simp [Reading.next?, hmodified]
    exact ⟨1, run_go_last absent rfl⟩
  | ok modified =>
    have dates : Reading.next? { key } s.tree s.kept = some (.dated modified, s.kept) := by
      simp [Reading.next?, hmodified]
    cases htext : s.kept.text? key modified with
    | some text =>
      have hits : Reading.next? { key, stage := .dated modified } s.tree s.kept =
          some (.ended (.ok text), s.kept) := by
        simp [Reading.next?, htext]
      simp only [htext]
      exact ⟨2, run_go_last dates (run_go_last hits rfl)⟩
    | none =>
      have misses : Reading.next? { key, stage := .dated modified } s.tree s.kept =
          some (.missed modified, s.kept) := by
        simp [Reading.next?, htext]
      cases hread : s.tree.readText key with
      | error e =>
        have unreadable : Reading.next? { key, stage := .missed modified } s.tree s.kept =
            some (.ended (.error e), s.kept) := by
          simp [Reading.next?, hread]
        simp only [htext]
        exact ⟨3, run_go_last dates (run_go_last misses (run_go_last unreadable rfl))⟩
      | ok text =>
        have fetches : Reading.next? { key, stage := .missed modified } s.tree s.kept =
            some (.fetched modified text, s.kept) := by
          simp [Reading.next?, hread]
        simp only [htext]
        exact ⟨4, run_go_last dates (run_go_last misses (run_go_last fetches (run_go_last rfl rfl)))⟩

end Readings

/-! ## What is loaded -/

/-- Files change while launch files are loaded, nothing is kept at first, and a file that has the same
time at two moments has the same content. Then a reading, however it is interrupted by changes and other
readings, gives what the file is at some moment of the reading, unless the file has had a time, then
another one, and then the first one again. Loads that nothing interrupts give what they give without
anything kept. -/
theorem loads_not_stale (tree : Tree) :
    (∀ steps s, Readings.run { tree } steps = some s →
      Dated (TreesOf Readings.step Readings.tree { tree } steps) →
      ∀ (i : Nat) (r : Reading) (result : Except IoError String), s.readings[i]? = some r →
        r.stage = .ended result →
          Readings.GivenMeanwhile { tree } steps i r.key result ∨
            Readings.TimeReturns { tree } steps r.key) ∧
    ∀ visits s, FileSession.run { tree } visits = some s →
      Dated (TreesOf FileSession.step FileSession.tree { tree } visits) →
      ∀ (locator : String) (including : Option String),
        (s.kept.load s.tree locator including).1 = Source.files.load s.tree locator including := by
  constructor
  · intro steps s h hdated i r result found hended
    have hstands := (Readings.grounded_of_run h rfl rfl hdated).readings i r found
    rwa [hended] at hstands
  · intro visits s h hdated locator including
    exact (FileSession.fresh_of_run h rfl hdated).load locator including

/-! ## A file that is rewritten -/

/-- A launch file with its text and the time of its last change. -/
def launchFile (text : String) (time : Nat) : Tree :=
  { nodes := [(["a.xml"], .file text.toUTF8 time)] }

def older : Tree := launchFile "<launch/>" 1
def newer : Tree := launchFile "<launch></launch>" 2

def rewriting : FileChange := .write ["a.xml"] "<launch></launch>".toUTF8 2
def restoring : FileChange := .write ["a.xml"] "<launch/>".toUTF8 1

theorem node?_launchFile {text : String} {time time' : Nat} {location : Location} {content : ByteArray}
    (h : (launchFile text time).node? location = some (.file content time')) :
    content = text.toUTF8 ∧ time' = time := by
  by_cases hempty : location = []
  · simp [Tree.node?, hempty] at h
  · by_cases hthere : location = ["a.xml"]
    · subst hthere
      have hfile : some (Node.file text.toUTF8 time) = some (.file content time') := h
      cases hfile
      exact ⟨rfl, rfl⟩
    · simp [Tree.node?, launchFile, hempty, Ne.symm hthere] at h

theorem dated_launchFile : Dated fun t => t = older ∨ t = newer := by
  have alike {text : String} {time : Nat} :
      (launchFile text time).DatedAlike (launchFile text time) := by
    intro location content content' time' h h'
    rw [(node?_launchFile h).1, (node?_launchFile h').1]
  have apart {text text' : String} {time time' : Nat} (hne : time ≠ time') :
      (launchFile text time).DatedAlike (launchFile text' time') := by
    intro location content content' time'' h h'
    exact absurd ((node?_launchFile h).2.symm.trans (node?_launchFile h').2) hne
  rintro t t' (rfl | rfl) (rfl | rfl)
  · exact alike
  · exact apart (by decide)
  · exact apart (by decide)
  · exact alike

/-- While the launch file is rewritten and restored, it has one content for each time. -/
theorem ChangesFiles.dated {σ α : Type} {step : σ → α → Option σ} {tree : σ → Tree}
    {change? : α → Option FileChange} {start : σ} {steps : List α}
    (hstep : ChangesFiles step tree change?) (hstart : tree start = older)
    (hchanges : ∀ a ∈ steps, ∀ c, change? a = some c → c = rewriting ∨ c = restoring) :
    Dated (TreesOf step tree start steps) := by
  refine dated_launchFile.mono ?_
  rintro _ ⟨before, s, hpasses, rfl⟩
  refine hstep.tree_of_run (P := fun t => t = older ∨ t = newer) ?_ hpasses.run (.inl hstart)
  intro a ha c hc t t' happly ht
  obtain rfl | rfl := hchanges a (hpasses.first.subset ha) c hc
  · obtain rfl | rfl := ht <;> exact .inr (Option.some.inj happly).symm
  · obtain rfl | rfl := ht <;> exact .inl (Option.some.inj happly).symm

/-- The file is rewritten after the first reading has looked at its time. The second reading keeps the
new text for the new time, and the first one then keeps it for the old time. -/
def overtaken : List Readings.Step :=
  [.begin "/a.xml", .go 0, .begin "/a.xml", .change rewriting, .go 1, .go 1, .go 1, .go 1, .go 0, .go 0,
    .go 0]

/-- Loads before and after each of two changes. -/
def reloaded : List Visit :=
  [.load "/a.xml" none, .change rewriting, .load "/a.xml" none, .change restoring]

/-- The time of the launch file after each number of steps. -/
theorem time_of_passes {steps before : List Readings.Step} {s : Readings} {times : Nat → Nat}
    {time : Nat}
    (htimes : ∀ n ≤ steps.length, ((Readings.run { tree := older } (steps.take n)).map fun s =>
      (s.tree.modified "/a.xml").toOption) = some (some (times n)))
    (h : Passes Readings.step { tree := older } steps before s)
    (htime : s.tree.modified "/a.xml" = .ok time) : time = times before.length := by
  have hrun : Readings.run { tree := older } before = some s := h.run
  have htake := htimes before.length h.first.length_le
  rw [← List.prefix_iff_eq_take.mp h.first, hrun, Option.map_some, htime] at htake
  exact Option.some.inj (Option.some.inj htake)

theorem overtaken_times : ∀ n ≤ overtaken.length,
    ((Readings.run { tree := older } (overtaken.take n)).map fun s =>
      (s.tree.modified "/a.xml").toOption) = some (some (if n ≤ 3 then 1 else 2)) := by
  decide

theorem overtaken_not_stale :
    (∃ s r, Readings.run { tree := older } overtaken = some s ∧ s.readings[0]? = some r ∧
      r.stage = .ended (.ok "<launch></launch>") ∧
      Readings.GivenMeanwhile { tree := older } overtaken 0 r.key (.ok "<launch></launch>")) ∧
    ∃ s, FileSession.run { tree := older } reloaded = some s ∧ s.kept.length = 1 ∧
      (s.kept.load s.tree "/a.xml" none).1 = Source.files.load s.tree "/a.xml" none := by
  have hrun : Readings.run { tree := older } overtaken = some _ := rfl
  have hdated : Dated (TreesOf Readings.step Readings.tree { tree := older } overtaken) :=
    Readings.changesFiles.dated rfl (by simp [overtaken, Readings.Step.change?])
  have hsession : FileSession.run { tree := older } reloaded = some _ := rfl
  have hdated' : Dated (TreesOf FileSession.step FileSession.tree { tree := older } reloaded) :=
    FileSession.changesFiles.dated rfl (by simp [reloaded, Visit.change?])
  refine ⟨⟨_, _, hrun, rfl, rfl, ?_⟩, _, hsession, rfl,
    (loads_not_stale older).2 reloaded _ hsession hdated' "/a.xml" none⟩
  obtain hgiven | hreturns := (loads_not_stale older).1 overtaken _ hrun hdated 0 _ _ rfl rfl
  · exact hgiven
  · obtain ⟨first, between, last, s₁, s₂, s₃, time, other, h₁, h₂, h₃, h₁₂, h₂₃, htime, hother, hne,
      htime'⟩ := hreturns
    have hfirst := time_of_passes overtaken_times h₁ htime
    have hbetween := time_of_passes overtaken_times h₂ hother
    have hlast := time_of_passes overtaken_times h₃ htime'
    have := h₁₂.length_le
    have := h₂₃.length_le
    split_ifs at hfirst hbetween hlast <;> omega

/-- The file is rewritten after the first reading has looked at its time, and restored after the new text
was kept for the old time. -/
def restored : List Readings.Step :=
  [.begin "/a.xml", .go 0, .change rewriting, .go 0, .go 0, .go 0, .change restoring, .begin "/a.xml",
    .go 1, .go 1]

/-- Not every reading gives a text that the file has had during the reading. -/
theorem restored_stale : ¬ ∀ (tree : Tree) (steps : List Readings.Step) (s : Readings),
    Readings.run { tree } steps = some s →
      Dated (TreesOf Readings.step Readings.tree { tree } steps) →
      ∀ (i : Nat) (r : Reading) (text : String), s.readings[i]? = some r →
        r.stage = .ended (.ok text) → Readings.GivenMeanwhile { tree } steps i r.key (.ok text) := by
  intro h
  have hrun : Readings.run { tree := older } restored = some _ := rfl
  have hdated : Dated (TreesOf Readings.step Readings.tree { tree := older } restored) :=
    Readings.changesFiles.dated rfl (by simp [restored, Readings.Step.change?])
  obtain ⟨before, s, hpasses, ⟨r, found, -, hopen⟩, htext⟩ :=
    h older restored _ hrun hdated 1 _ _ rfl rfl
  -- While the second reading goes on, the file has its old text.
  have hcheck : ∀ n ≤ restored.length,
      (Readings.run { tree := older } (restored.take n)).all (fun s =>
        (s.readings[1]?.all Reading.hasEnded) ||
          (s.tree.readText "/a.xml").toOption = some "<launch/>") = true := by
    decide
  have htake := hcheck before.length hpasses.first.length_le
  have hbefore : Readings.run { tree := older } before = some s := hpasses.run
  rw [← List.prefix_iff_eq_take.mp hpasses.first, hbefore] at htake
  change s.tree.readText "/a.xml" = .ok "<launch></launch>" at htext
  simp [found, hopen, htext, Except.toOption] at htake

end LaunchPlan
