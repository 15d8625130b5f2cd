import LaunchPlan.Proofs.Stopping
import Mathlib.Algebra.GroupWithZero.Nat
import Mathlib.Data.Fintype.EquivFin

/-!
# All or nothing

Starting a manifest comes to one of two ends: all of its processes were started, in its order, or the
first of them that cannot be started is what the launch fails with, after all those before it have
ended. The steps to either end are bounded by the number of processes, and there is always a next
one: a child that does not heed the request to stop is killed.
-/

namespace LaunchPlan

/-- How many steps a child is good for at most. -/
def Child.work (c : Child) : Nat :=
  (if c.status.isNone then 1 else 0) +
    match c.watch with
    | .waiting => 6
    | .stopping => 5
    | .expired => 4
    | .killing => 3
    | .killed => 2
    | .done => 0

/-- How many steps a stage is good for at most. -/
def Stage.work : Stage → Nat
  | .starting rest => 8 * rest.length + 2
  | .stopping _ => 1
  | .over _ => 0

namespace Launch

variable {m : Manifest} {l l' : Launch} {s : Step} {steps more : List Step} {i : Nat}
  {c c' : Child} {failure : Option LaunchCause}

/-! ## Attempts -/

/-- What comes of an attempt to start a process: none, or why it cannot be started. -/
def Step.attempt? : Step → Option (Option IoError)
  | .start (.ok _) => some none
  | .start (.error e) => some (some e)
  | _ => none

/-- What came of the attempts to start processes, in their order. -/
def attempts (steps : List Step) : List (Option IoError) :=
  steps.filterMap Step.attempt?

theorem attempts_concat : attempts (steps ++ [s]) = attempts steps ++ s.attempt?.toList := by
  rw [attempts, List.filterMap_append]
  cases h : s.attempt? <;> simp [attempts, h]

/-- How far the processes of a manifest were tried, by what came of the attempts. -/
inductive Tried (m : Manifest) : List (Option IoError) → Stage → Prop
  | starting {started rest : List PlannedProcess} (split : m.processes = started ++ rest) :
    Tried m (.replicate started.length none) (.starting rest)
  | left {stage : Stage} (leaving : ∀ rest, stage ≠ .starting rest)
    (other : ∀ name e, stage ≠ .stopping (some (.spawn name e)) ∧
      stage ≠ .over (.error (.spawn name e))) :
    Tried m (.replicate m.processes.length none) stage
  | failing {started rest : List PlannedProcess} {p : PlannedProcess} {e : IoError}
    (split : m.processes = started ++ p :: rest) :
    Tried m (.replicate started.length none ++ [some e])
      (.stopping (some (.spawn p.displayName e)))
  | failed {started rest : List PlannedProcess} {p : PlannedProcess} {e : IoError}
    (split : m.processes = started ++ p :: rest) :
    Tried m (.replicate started.length none ++ [some e])
      (.over (.error (.spawn p.displayName e)))

/-- Programs that join or leave the groups of children have no part in how far a launch has come. -/
def Step.ofGroup : Step → Bool
  | .join _ | .part _ => true
  | _ => false

/-- How many steps can still happen to a launch at most, but for those of the groups. -/
def work (l : Launch) : Nat :=
  l.stage.work + (l.children.map Child.work).sum + l.pending.length

theorem sum_map_set {children : List Child} (found : children[i]? = some c) (c' : Child)
    (f : Child → Nat) : ((children.set i c').map f).sum + f c = (children.map f).sum + f c' := by
  induction children generalizing i with
  | nil => cases found
  | cons d children ih =>
    cases i with
    | zero =>
      obtain rfl : d = c := Option.some.inj found
      simp only [List.set_cons_zero, List.map_cons, List.sum_cons]
      omega
    | succ i =>
      have := ih found
      simp only [List.set_cons_succ, List.map_cons, List.sum_cons]
      omega

theorem Changes.work (h : l.Changes i c s c') :
    s.ofGroup = true ∧ c'.work = c.work ∨ c'.work < c.work := by
  cases h with
  | exits running => exact .inr (by simp [Child.work, running])
  | joins | parts => exact .inl ⟨rfl, rfl⟩
  | heeds requested waiting => exact .inr (by simp [Child.work, waiting])
  | expires stopping => exact .inr (by simp [Child.work, stopping])
  | givesUp expired => exact .inr (by simp [Child.work, expired])
  | kills killing => exact .inr (by simp [Child.work, killing])

theorem work_noticed (ht : c.watch ≠ .done) : { c with watch := .done }.work + 2 ≤ c.work := by
  cases hw : c.watch with
  | done => exact absurd hw ht
  | waiting | stopping | expired | killing | killed =>
    simp only [Child.work, hw]
    omega

/-- Every step brings a launch nearer to its end, but those of the groups. -/
theorem Moves.work (h : l.Moves s l') :
    s.ofGroup = true ∧ l'.work = l.work ∨ l'.work < l.work := by
  cases h with
  | starts stage free =>
    right
    simp [Launch.work, stage, Stage.work, Child.work]
    omega
  | fails stage =>
    right
    simp [Launch.work, stage, Stage.work]
  | @changes i c c' _ found change =>
    have hsum := sum_map_set found c' Child.work
    obtain ⟨hs, hc⟩ | hc := change.work
    · left
      simp only [Launch.work, stage_setChild, children_setChild, pending_setChild]
      exact ⟨hs, by omega⟩
    · right
      simp only [Launch.work, stage_setChild, children_setChild, pending_setChild]
      omega
  | @notices i c status found ended unnoticed =>
    have hsum := sum_map_set found { c with watch := .done } Child.work
    have hc := work_noticed unnoticed
    right
    simp only [Launch.work, stage_noted, children_noted, pending_noted, List.length_append,
      List.length_singleton]
    omega
  | takes stage next | receives stage next | collects stage next =>
    right
    simp [Launch.work, next]
  | receivesCritical stage next =>
    right
    simp [Launch.work, stage, next, Stage.work]
    omega
  | closes stage closed | stops stage =>
    right
    simp [Launch.work, stage, Stage.work]
  | concludes stage closed =>
    right
    simp [Launch.work, stage, Stage.work]

/-- A step that is sure to come: the launch makes it, or tries its next process, or a child that was
killed ends. -/
inductive Step.Sure (steps : List Step) : Step → Prop
  | start (result : Except IoError Nat) : Sure steps (.start result)
  | notice (i : Nat) : Sure steps (.notice i)
  | heed (i : Nat) : Sure steps (.heed i)
  | expire (i : Nat) : Sure steps (.expire i)
  | giveUp (i : Nat) : Sure steps (.giveUp i)
  | kill (i : Nat) : Sure steps (.kill i)
  | collect : Sure steps .collect
  | conclude : Sure steps .conclude
  | killed {i : Nat} (status : ExitStatus) : .kill i ∈ steps → Sure steps (.exit i status)

/-- There is a next step while a launch is being stopped, whatever its children do. -/
theorem next_of_stopping (h : (ofManifest m).run steps = some l)
    (hs : l.stage = .stopping failure) :
    ∃ s l', l.Moves s l' ∧ s.Sure steps ∧ s.attempt? = none := by
  by_cases hdone : ∀ c ∈ l.children, c.watch = .done
  · cases hpending : l.pending with
    | nil => exact ⟨_, _, .concludes hs (isClosed_iff.mpr ⟨hpending, hdone⟩), .conclude, rfl⟩
    | cons e pending => exact ⟨_, _, .collects hs hpending, .collect, rfl⟩
  · push Not at hdone
    obtain ⟨c, hc, unnoticed⟩ := hdone
    obtain ⟨i, found⟩ := List.getElem?_of_mem hc
    by_cases settled : c.watch = .killing
    · exact ⟨_, _, .changes found (.kills settled), .kill i, rfl⟩
    cases hstatus : c.status with
    | some status => exact ⟨_, _, .notices found hstatus unnoticed settled, .notice i, rfl⟩
    | none =>
      -- The child still runs, and how far its watching has come says what comes next.
      cases hwatch : c.watch with
      | waiting =>
        exact ⟨_, _, .changes found (.heeds (run_stopRequested h hs) hwatch), .heed i, rfl⟩
      | stopping => exact ⟨_, _, .changes found (.expires hwatch), .expire i, rfl⟩
      | expired => exact ⟨_, _, .changes found (.givesUp hwatch hstatus), .giveUp i, rfl⟩
      | killing => exact absurd hwatch settled
      | killed =>
        have hrecorded := (run_booked h).recorded i c found
        have hkilled : .kill i ∈ steps :=
          hrecorded.killed.mpr ⟨(hrecorded.gaveUp unnoticed).mpr (.inr hwatch), settled⟩
        exact ⟨_, _, .changes found (.exits hstatus), .killed (.signaled 9) hkilled, rfl⟩
      | done => exact absurd hwatch unnoticed

/-- There is a number for a further child. -/
theorem exists_free (l : Launch) : ∃ pid, ∀ c ∈ l.children, c.holds pid = false := by
  obtain ⟨pid, hpid⟩ := Infinite.exists_notMem_finset (l.children.map Child.pid).toFinset
  refine ⟨pid, fun c hc => ?_⟩
  have hne : c.pid ≠ pid := fun heq => hpid (by simpa using ⟨c, hc, heq⟩)
  simp [Child.holds, hne]

/-- The next process can be tried, with any outcome. -/
theorem next_of_starting {p : PlannedProcess} {rest : List PlannedProcess}
    (hs : l.stage = .starting (p :: rest)) (outcome : Option IoError) :
    ∃ result l', l.Moves (.start result) l' ∧ (Step.start result).attempt? = some outcome := by
  cases outcome with
  | none =>
    obtain ⟨pid, free⟩ := exists_free l
    exact ⟨.ok pid, _, .starts hs free, rfl⟩
  | some e => exact ⟨.error e, _, .fails hs, rfl⟩

/-- The attempts have come out as assigned to the places in the manifest. -/
def Obeys (outcome : Nat → Option IoError) (steps : List Step) : Prop :=
  ∀ (k : Nat) (r : Option IoError), (attempts steps)[k]? = some r → outcome k = r

theorem Obeys.concat {outcome : Nat → Option IoError} (h : Obeys outcome steps)
    (hs : ∀ r, s.attempt? = some r → outcome (attempts steps).length = r) :
    Obeys outcome (steps ++ [s]) := by
  intro k r hr
  rw [attempts_concat, List.getElem?_append] at hr
  split at hr
  · exact h k r hr
  · next hk =>
    cases hattempt : s.attempt? with
    | none => simp [hattempt] at hr
    | some r' =>
      obtain ⟨hk', rfl⟩ : k - (attempts steps).length = 0 ∧ r' = r := by
        simpa [hattempt, List.getElem?_singleton] using hr
      rw [← hs r' hattempt]
      congr 1
      omega

/-- Each of the steps is sure to come after those before it. -/
def SureFrom (steps more : List Step) : Prop :=
  ∀ before s after, more = before ++ s :: after → s.Sure (steps ++ before)

theorem SureFrom.cons (hs : s.Sure steps) (h : SureFrom (steps ++ [s]) more) :
    SureFrom steps (s :: more) := by
  intro before t after heq
  cases before with
  | nil =>
    obtain ⟨rfl, -⟩ := List.cons.inj heq
    simpa using hs
  | cons u before =>
    obtain ⟨rfl, rfl⟩ := List.cons.inj heq
    simpa using h before t after rfl

/-- How far the processes were tried when the one at place `i` is the first that cannot be started. -/
inductive Fails (i : Nat) (p : PlannedProcess) (e : IoError) :
    List (Option IoError) → Stage → Prop
  | starting {n : Nat} {q : PlannedProcess} {rest : List PlannedProcess} (le : n ≤ i) :
    Fails i p e (.replicate n none) (.starting (q :: rest))
  | failing : Fails i p e (.replicate i none ++ [some e]) (.stopping (some (.spawn p.displayName e)))
  | failed : Fails i p e (.replicate i none ++ [some e]) (.over (.error (.spawn p.displayName e)))

section

variable {outcome : Nat → Option IoError} {p : PlannedProcess} {e : IoError}

/-- As many successes as there are come before the first failure. -/
theorem le_of_obeys {n : Nat} (outcomes : List (Option IoError))
    (hobeys : ∀ (k : Nat) (r : Option IoError),
      (List.replicate n none ++ outcomes)[k]? = some r → outcome k = r)
    (hfails : outcome i = some e) : n ≤ i := by
  by_contra hlt
  have hnone := hobeys i none (by
    rw [List.getElem?_append_left (by simpa using Nat.lt_of_not_le hlt)]
    simp [Nat.lt_of_not_le hlt])
  rw [hfails] at hnone
  cases hnone

theorem Tried.fails {outcomes : List (Option IoError)} {stage : Stage} (ht : Tried m outcomes stage)
    (hobeys : ∀ (k : Nat) (r : Option IoError), outcomes[k]? = some r → outcome k = r)
    (hbefore : ∀ k < i, outcome k = none) (hfails : outcome i = some e)
    (hp : m.processes[i]? = some p) : Fails i p e outcomes stage := by
  have hlt : i < m.processes.length := (List.getElem?_eq_some_iff.mp hp).1
  -- The attempt that failed, if there is one, is the one at place `i`.
  have hplace : ∀ {started rest : List PlannedProcess} {q : PlannedProcess} {e' : IoError},
      m.processes = started ++ q :: rest →
      (∀ (k : Nat) (r : Option IoError),
        (List.replicate started.length none ++ [some e'])[k]? = some r → outcome k = r) →
      started.length = i ∧ q = p ∧ e' = e := by
    intro started rest q e' split hobeys
    have hle := le_of_obeys _ hobeys hfails
    have hfailed := hobeys started.length (some e') (by simp)
    have heq : started.length = i := by
      by_contra hne
      rw [hbefore _ (by omega)] at hfailed
      cases hfailed
    subst heq
    rw [split] at hp
    rw [hfails] at hfailed
    exact ⟨rfl, by simpa using hp, (Option.some.inj hfailed).symm⟩
  cases ht with
  | @starting started rest split =>
    have hle : started.length ≤ i := le_of_obeys [] (by simpa using hobeys) hfails
    cases rest with
    | nil =>
      rw [split, List.append_nil] at hlt
      omega
    | cons q rest => exact .starting hle
  | left =>
    have hle : m.processes.length ≤ i := le_of_obeys [] (by simpa using hobeys) hfails
    omega
  | failing split =>
    obtain ⟨rfl, rfl, rfl⟩ := hplace split hobeys
    exact .failing
  | failed split =>
    obtain ⟨rfl, rfl, rfl⟩ := hplace split hobeys
    exact .failed

/-- There is a next step until the launch has failed. -/
theorem Fails.next (hfails : Fails i p e (attempts steps) l.stage)
    (h : (ofManifest m).run steps = some l) (hobeys : Obeys outcome steps)
    (hunfinished : ∀ result, l.stage ≠ .over result) :
    ∃ s l', l.Moves s l' ∧ s.Sure steps ∧ Obeys outcome (steps ++ [s]) := by
  generalize hstage : l.stage = stage, attempts steps = outcomes at hfails
  cases hfails with
  | starting =>
    obtain ⟨result, l', hmove, hattempt⟩ :=
      next_of_starting hstage (outcome (attempts steps).length)
    refine ⟨_, l', hmove, .start result, hobeys.concat fun r hr => ?_⟩
    exact Option.some.inj (hattempt.symm.trans hr)
  | failing =>
    obtain ⟨s, l', hmove, hsure, hattempt⟩ := next_of_stopping h hstage
    exact ⟨s, l', hmove, hsure, hobeys.concat fun r hr => by rw [hattempt] at hr; cases hr⟩
  | failed => exact absurd hstage (hunfinished _)

end

section

variable {outcome : Nat → Option IoError}

variable {p : PlannedProcess} {e : IoError}

theorem Fails.stage {outcomes : List (Option IoError)} {stage : Stage}
    (h : Fails i p e outcomes stage) : (∃ q rest, stage = .starting (q :: rest)) ∨
      stage = .stopping (some (.spawn p.displayName e)) ∨
      stage = .over (.error (.spawn p.displayName e)) := by
  cases h with
  | starting => exact .inl ⟨_, _, rfl⟩
  | failing => exact .inr (.inl rfl)
  | failed => exact .inr (.inr rfl)

end

end Launch

end LaunchPlan
