import LaunchPlan.Proofs.Runs
import LaunchPlan.Supervision.Launch

/-!
# The steps of a launch

What every step can do to a launch is said once, and what a run of steps comes to is proved from it.
A child keeps its place, its name, its number and its end. Ends that were taken stay taken. A launch
that is being stopped goes on to be stopped.
-/

namespace LaunchPlan

namespace Launch

/-- The launch with the child at a place replaced. -/
def setChild (l : Launch) (i : Nat) (c : Child) : Launch :=
  { l with children := l.children.set i c }

section

variable (l : Launch) (i : Nat) (c : Child)

@[simp] theorem stage_setChild : (l.setChild i c).stage = l.stage := rfl
@[simp] theorem children_setChild : (l.setChild i c).children = l.children.set i c := rfl
@[simp] theorem pending_setChild : (l.setChild i c).pending = l.pending := rfl
@[simp] theorem taken_setChild : (l.setChild i c).taken = l.taken := rfl
@[simp] theorem stopRequested_setChild : (l.setChild i c).stopRequested = l.stopRequested := rfl

theorem forall_mem_setChild {P : Child → Prop} (hc : P c) (h : ∀ d ∈ l.children, P d) :
    ∀ d ∈ (l.setChild i c).children, P d := by
  intro d hd
  obtain hd | rfl := List.mem_or_eq_of_mem_set hd
  · exact h d hd
  · exact hc

end

/-- The launch after the end of a child was noticed. -/
def noted (l : Launch) (i : Nat) (c : Child) (status : ExitStatus) : Launch :=
  { l.setChild i { c with watch := .done } with pending := l.pending ++ [c.event status] }

section

variable (l : Launch) (i : Nat) (c : Child) (status : ExitStatus)

@[simp] theorem stage_noted : (l.noted i c status).stage = l.stage := rfl
@[simp] theorem children_noted :
    (l.noted i c status).children = l.children.set i { c with watch := .done } := rfl
@[simp] theorem pending_noted :
    (l.noted i c status).pending = l.pending ++ [c.event status] := rfl
@[simp] theorem taken_noted : (l.noted i c status).taken = l.taken := rfl
@[simp] theorem stopRequested_noted :
    (l.noted i c status).stopRequested = l.stopRequested := rfl

end

/-- The launch after an end was taken, when `pending` are left. -/
def handOut (l : Launch) (e : ExitEvent) (pending : List ExitEvent) : Launch :=
  { l with pending, taken := l.taken ++ [e] }

section

variable (l : Launch) (e : ExitEvent) (pending : List ExitEvent)

@[simp] theorem stage_handOut : (l.handOut e pending).stage = l.stage := rfl
@[simp] theorem children_handOut : (l.handOut e pending).children = l.children := rfl
@[simp] theorem pending_handOut : (l.handOut e pending).pending = pending := rfl
@[simp] theorem taken_handOut : (l.handOut e pending).taken = l.taken ++ [e] := rfl
@[simp] theorem stopRequested_handOut :
    (l.handOut e pending).stopRequested = l.stopRequested := rfl

end

section

variable (l : Launch) (failure : Option LaunchCause)

@[simp] theorem stage_beginStop : (l.beginStop failure).stage = .stopping failure := rfl
@[simp] theorem children_beginStop : (l.beginStop failure).children = l.children := rfl
@[simp] theorem pending_beginStop : (l.beginStop failure).pending = l.pending := rfl
@[simp] theorem taken_beginStop : (l.beginStop failure).taken = l.taken := rfl
@[simp] theorem stopRequested_beginStop : (l.beginStop failure).stopRequested = true := rfl

end

theorem isClosed_iff {l : Launch} :
    l.isClosed = true ↔ l.pending = [] ∧ ∀ c ∈ l.children, c.watch = .done := by
  simp [isClosed]

theorem isComplete_iff {l : Launch} : l.isComplete = true ↔ l.stage = .starting [] := by
  rw [isComplete]
  split <;> simp_all

/-- What a step that names one child can do to it. -/
inductive Changes (l : Launch) (i : Nat) (c : Child) : Step → Child → Prop
  | exits {status : ExitStatus} (running : c.status = none) :
    l.Changes i c (.exit i status) { c with status := some status }
  | joins (alive : c.watch ≠ .killed) (group : c.status = none ∨ 0 < c.followers) :
    l.Changes i c (.join i) { c with followers := c.followers + 1 }
  | parts (followed : 0 < c.followers) :
    l.Changes i c (.part i) { c with followers := c.followers - 1 }
  | heeds (requested : l.stopRequested = true) (waiting : c.watch = .waiting) :
    l.Changes i c (.heed i) { c with watch := .stopping, asked := true }
  | expires (stopping : c.watch = .stopping) :
    l.Changes i c (.expire i) { c with watch := .expired }
  | givesUp (expired : c.watch = .expired) (running : c.status = none) :
    l.Changes i c (.giveUp i) { c with watch := .killing }
  | kills (killing : c.watch = .killing) :
    l.Changes i c (.kill i) { c with watch := .killed, followers := 0 }

/-- What a step can do, with what it needs. -/
inductive Moves (l : Launch) : Step → Launch → Prop
  | starts {p : PlannedProcess} {rest : List PlannedProcess} {pid : Nat}
    (stage : l.stage = .starting (p :: rest)) (free : ∀ c ∈ l.children, c.holds pid = false) :
    l.Moves (.start (.ok pid)) { l with
      stage := .starting rest
      children := l.children ++ [{ name := p.displayName, pid, critical := p.critical }] }
  | fails {p : PlannedProcess} {rest : List PlannedProcess} {e : IoError}
    (stage : l.stage = .starting (p :: rest)) :
    l.Moves (.start (.error e)) (l.beginStop (some (.spawn p.displayName e)))
  | changes {i : Nat} {c c' : Child} {s : Step} (found : l.children[i]? = some c)
    (change : l.Changes i c s c') :
    l.Moves s (l.setChild i c')
  | notices {i : Nat} {c : Child} {status : ExitStatus} (found : l.children[i]? = some c)
    (ended : c.status = some status) (unnoticed : c.watch ≠ .done) (settled : c.watch ≠ .killing) :
    l.Moves (.notice i) (l.noted i c status)
  | takes {e : ExitEvent} {pending : List ExitEvent} (stage : l.stage = .starting [])
    (next : l.pending = e :: pending) :
    l.Moves .take (l.handOut e pending)
  | receives {e : ExitEvent} {pending : List ExitEvent} (stage : l.stage = .starting [])
    (next : l.pending = e :: pending) (harmless : e.critical = false) :
    l.Moves .watch (l.handOut e pending)
  | receivesCritical {e : ExitEvent} {pending : List ExitEvent} (stage : l.stage = .starting [])
    (next : l.pending = e :: pending) (critical : e.critical = true) :
    l.Moves .watch ((l.handOut e pending).beginStop (some (.unexpectedExit e.name e.status)))
  | closes (stage : l.stage = .starting []) (closed : l.isClosed = true) :
    l.Moves .watch (l.beginStop none)
  | stops (stage : l.stage = .starting []) :
    l.Moves .stop (l.beginStop none)
  | collects {failure : Option LaunchCause} {e : ExitEvent} {pending : List ExitEvent}
    (stage : l.stage = .stopping failure) (next : l.pending = e :: pending) :
    l.Moves .collect (l.handOut e pending)
  | concludes {failure : Option LaunchCause} (stage : l.stage = .stopping failure)
    (closed : l.isClosed = true) :
    l.Moves .conclude { l with stage := .over (failure.elim (.ok l.report) Except.error) }

variable {l l' : Launch} {s : Step}

theorem changeChild_eq_some {i : Nat} {applies : Child → Prop} [DecidablePred applies]
    {change : Child → Child} :
    (l.changeChild i fun c => if applies c then some (change c) else none) = some l' ↔
      ∃ c, l.children[i]? = some c ∧ applies c ∧ l.setChild i (change c) = l' := by
  simp [changeChild, setChild, Option.bind_eq_some_iff]

theorem takeNext_eq_some {e : ExitEvent} :
    l.takeNext = some (e, l') ↔
      ∃ pending, l.pending = e :: pending ∧ l.handOut e pending = l' := by
  rw [takeNext]
  cases h : l.pending with
  | nil => simp
  | cons d pending =>
    simp only [Option.some.injEq, Prod.mk.injEq, List.cons.injEq, handOut]
    constructor
    · rintro ⟨rfl, rfl⟩
      exact ⟨pending, ⟨rfl, rfl⟩, rfl⟩
    · rintro ⟨_, ⟨rfl, rfl⟩, rfl⟩
      exact ⟨rfl, rfl⟩

/-- Everything that a step can do is a move. -/
theorem step_moves (h : l.step s = some l') : l.Moves s l' := by
  cases s with
  | start result =>
    simp only [step, start] at h
    split at h
    case h_1 p rest pid stage =>
      split at h
      · cases h
      · rename_i free
        cases h
        refine .starts stage fun c hc => ?_
        have hother : ¬ c.holds pid = true :=
          fun hholds => free (List.any_eq_true.mpr ⟨c, hc, hholds⟩)
        simpa using hother
    case h_2 p rest e stage =>
      cases h
      exact .fails stage
    case h_3 => cases h
  | exit i status =>
    obtain ⟨c, found, running, rfl⟩ := changeChild_eq_some.mp h
    exact .changes found (.exits (by simpa using running))
  | join i =>
    obtain ⟨c, found, takesIn, rfl⟩ := changeChild_eq_some.mp h
    have takesIn : c.watch ≠ .killed ∧ (c.status = none ∨ 0 < c.followers) := by simpa using takesIn
    exact .changes found (.joins takesIn.1 takesIn.2)
  | part i =>
    obtain ⟨c, found, followed, rfl⟩ := changeChild_eq_some.mp h
    exact .changes found (.parts followed)
  | notice i =>
    simp only [step, notice, Option.bind_eq_bind, Option.bind_eq_some_iff] at h
    obtain ⟨c, found, status, ended, h⟩ := h
    obtain ⟨looking, h⟩ := Option.ite_none_left_eq_some.mp h
    have looking : c.watch ≠ .done ∧ c.watch ≠ .killing := by simpa using looking
    cases h
    exact .notices found ended looking.1 looking.2
  | heed i =>
    obtain ⟨requested, h⟩ := Option.ite_none_right_eq_some.mp h
    obtain ⟨c, found, waiting, rfl⟩ := changeChild_eq_some.mp h
    exact .changes found (.heeds requested waiting)
  | expire i =>
    obtain ⟨c, found, stopping, rfl⟩ := changeChild_eq_some.mp h
    exact .changes found (.expires stopping)
  | giveUp i =>
    obtain ⟨c, found, due, rfl⟩ := changeChild_eq_some.mp h
    have due : c.watch = .expired ∧ c.status = none := by simpa using due
    exact .changes found (.givesUp due.1 due.2)
  | kill i =>
    obtain ⟨c, found, killing, rfl⟩ := changeChild_eq_some.mp h
    exact .changes found (.kills killing)
  | take =>
    obtain ⟨complete, h⟩ := Option.ite_none_right_eq_some.mp h
    obtain ⟨⟨e, _⟩, taken, rfl⟩ := Option.map_eq_some_iff.mp h
    obtain ⟨pending, next, rfl⟩ := takeNext_eq_some.mp taken
    exact .takes (isComplete_iff.mp complete) next
  | watch =>
    obtain ⟨complete, h⟩ := Option.ite_none_right_eq_some.mp h
    have stage := isComplete_iff.mp complete
    split at h
    case h_1 e _ taken =>
      obtain ⟨pending, next, rfl⟩ := takeNext_eq_some.mp taken
      cases critical : e.critical with
      | true =>
        simp only [critical, if_true, Option.some.injEq] at h
        exact h ▸ .receivesCritical stage next critical
      | false =>
        simp only [critical, Bool.false_eq_true, if_false, Option.some.injEq] at h
        exact h ▸ .receives stage next critical
    case h_2 =>
      obtain ⟨closed, h⟩ := Option.ite_none_right_eq_some.mp h
      cases h
      exact .closes stage closed
  | stop =>
    obtain ⟨complete, h⟩ := Option.ite_none_right_eq_some.mp h
    cases h
    exact .stops (isComplete_iff.mp complete)
  | collect =>
    simp only [step] at h
    split at h
    case h_1 failure stage =>
      obtain ⟨⟨e, _⟩, taken, rfl⟩ := Option.map_eq_some_iff.mp h
      obtain ⟨pending, next, rfl⟩ := takeNext_eq_some.mp taken
      exact .collects stage next
    case h_2 => cases h
  | conclude =>
    simp only [step] at h
    split at h
    case h_1 failure stage =>
      obtain ⟨closed, h⟩ := Option.ite_none_right_eq_some.mp h
      cases h
      exact .concludes stage closed
    case h_2 => cases h

theorem Changes.step_eq {i : Nat} {c c' : Child} (change : l.Changes i c s c')
    (found : l.children[i]? = some c) : l.step s = some (l.setChild i c') := by
  cases change with
  | exits running => simp [step, changeChild, setChild, found, running]
  | joins alive group => simp [step, changeChild, setChild, found, alive, group]
  | parts followed => simp [step, changeChild, setChild, found, followed]
  | heeds requested waiting => simp [step, changeChild, setChild, found, requested, waiting]
  | expires stopping => simp [step, changeChild, setChild, found, stopping]
  | givesUp expired running => simp [step, changeChild, setChild, found, expired, running]
  | kills killing => simp [step, changeChild, setChild, found, killing]

/-- Every move is possible. -/
theorem Moves.step_eq (h : l.Moves s l') : l.step s = some l' := by
  cases h with
  | @starts p rest pid stage free =>
    have hfree : ¬ l.children.any (fun c => c.holds pid) = true := by
      simpa using free
    simp only [step, start, stage, if_neg hfree]
  | fails stage => simp [step, start, stage]
  | changes found change => exact change.step_eq found
  | notices found ended unnoticed settled =>
    simp [step, notice, noted, setChild, found, ended, unnoticed, settled]
  | takes stage next => simp [step, isComplete, stage, takeNext, next, handOut]
  | receives stage next harmless =>
    simp [step, isComplete, stage, takeNext, next, harmless, handOut]
  | receivesCritical stage next critical =>
    simp [step, isComplete, stage, takeNext, next, critical, handOut]
  | closes stage closed =>
    simp [step, isComplete, stage, takeNext, (isClosed_iff.mp closed).1, closed]
  | stops stage => simp [step, isComplete, stage]
  | collects stage next => simp [step, stage, takeNext, next, handOut]
  | concludes stage closed => simp [step, stage, closed]

/-! ## One child -/

/-- The child that a step names. -/
def Step.child? : Step → Option Nat
  | .exit i _ | .join i | .part i | .notice i | .heed i | .expire i | .giveUp i | .kill i => some i
  | _ => none

/-- What a step can make of the child at a place. -/
inductive Touches (l : Launch) (i : Nat) (c : Child) : Step → Child → Prop
  | passes {s : Step} (other : s.child? ≠ some i) : l.Touches i c s c
  | changes {s : Step} {c' : Child} (change : l.Changes i c s c') : l.Touches i c s c'
  | notices {status : ExitStatus} (ended : c.status = some status) (unnoticed : c.watch ≠ .done)
    (settled : c.watch ≠ .killing) : l.Touches i c (.notice i) { c with watch := .done }

variable {i : Nat} {c c' : Child}

theorem Changes.child?_eq (h : l.Changes i c s c') : s.child? = some i := by
  cases h <;> rfl

/-- What a step makes of the one child that it names says what it makes of every child. -/
theorem Touches.set {j : Nat} {d d' : Child} (h : l.Touches j d s d') (hs : s.child? = some j)
    (hd : l.children[j]? = some d) (found : l.children[i]? = some c) :
    ∃ c', (l.children.set j d')[i]? = some c' ∧ l.Touches i c s c' := by
  by_cases hij : j = i
  · subst hij
    have hlt : j < l.children.length := (List.getElem?_eq_some_iff.mp hd).1
    obtain rfl : d = c := Option.some.inj (hd.symm.trans found)
    exact ⟨d', List.getElem?_set_self hlt, h⟩
  · have hother : s.child? ≠ some i := by simpa [hs] using hij
    exact ⟨c, by rw [List.getElem?_set_ne hij, found], .passes hother⟩

/-- A started child keeps its place. -/
theorem Moves.touches (h : l.Moves s l') (found : l.children[i]? = some c) :
    ∃ c', l'.children[i]? = some c' ∧ l.Touches i c s c' := by
  cases h with
  | starts stage free =>
    have hlt : i < l.children.length := (List.getElem?_eq_some_iff.mp found).1
    exact ⟨c, by rw [List.getElem?_append_left hlt, found], .passes nofun⟩
  | changes hd change => exact (Touches.changes change).set change.child?_eq hd found
  | notices hd ended unnoticed settled =>
    exact (Touches.notices ended unnoticed settled).set rfl hd found
  | fails | takes | receives | receivesCritical | closes | stops | collects | concludes =>
    exact ⟨c, found, .passes nofun⟩

theorem Moves.length_le (h : l.Moves s l') : l.children.length ≤ l'.children.length := by
  cases h <;> simp

/-- A child is one that was there, or a process that the step has started. -/
theorem Moves.touched (h : l.Moves s l') (found : l'.children[i]? = some c') :
    (∃ c, l.children[i]? = some c ∧ l.Touches i c s c') ∨
      i = l.children.length ∧ ∃ p rest pid, l.stage = .starting (p :: rest) ∧
        s = .start (.ok pid) ∧ c' = { name := p.displayName, pid, critical := p.critical } := by
  by_cases hi : i < l.children.length
  · obtain ⟨d, hd, ht⟩ := h.touches (List.getElem?_eq_getElem hi)
    obtain rfl : d = c' := by simpa [hd] using found
    exact .inl ⟨_, List.getElem?_eq_getElem hi, ht⟩
  · have hlt : i < l'.children.length := (List.getElem?_eq_some_iff.mp found).1
    cases h with
    | @starts p rest pid stage free =>
      have heq : i = l.children.length := by
        simp only [List.length_append, List.length_singleton] at hlt
        omega
      subst heq
      obtain rfl : _ = c' := by simpa using found
      exact .inr ⟨rfl, p, rest, pid, stage, rfl, rfl⟩
    | changes | notices =>
      simp only [children_setChild, children_noted, List.length_set] at hlt
      exact absurd hlt hi
    | fails | takes | receives | receivesCritical | closes | stops | collects | concludes =>
      exact absurd hlt hi

/-- A step names a started child only. -/
theorem Moves.child_lt (h : l.Moves s l') (hs : s.child? = some i) : i < l.children.length := by
  cases h with
  | changes found change =>
    obtain rfl := Option.some.inj (change.child?_eq.symm.trans hs)
    exact (List.getElem?_eq_some_iff.mp found).1
  | notices found =>
    obtain rfl := Option.some.inj hs
    exact (List.getElem?_eq_some_iff.mp found).1
  | starts | fails | takes | receives | receivesCritical | closes | stops | collects | concludes =>
    cases hs

/-! ## Runs -/

variable {steps more : List Step}

@[simp] theorem run_nil : l.run [] = some l := rfl

theorem run_cons : l.run (s :: steps) = some l' ↔ ∃ l₁, l.Moves s l₁ ∧ l₁.run steps = some l' := by
  rw [run, List.foldlM_cons]
  simp only [Option.bind_eq_bind, Option.bind_eq_some_iff]
  exact ⟨fun ⟨l₁, h, k⟩ => ⟨l₁, step_moves h, k⟩, fun ⟨l₁, h, k⟩ => ⟨l₁, h.step_eq, k⟩⟩

theorem run_append :
    l.run (steps ++ more) = some l' ↔ ∃ l₁, l.run steps = some l₁ ∧ l₁.run more = some l' :=
  run_append_iff

/-- From where the first steps have led, the other steps lead to the same end. -/
theorem run_of_append {l₁ : Launch} (h : l.run (steps ++ more) = some l')
    (h₁ : l.run steps = some l₁) : l₁.run more = some l' := by
  obtain ⟨l₂, h₂, hmore⟩ := run_append.mp h
  obtain rfl : l₂ = l₁ := Option.some.inj (h₂.symm.trans h₁)
  exact hmore

theorem run_singleton : l.run [s] = some l' ↔ l.Moves s l' := by
  simp [run_cons]

theorem run_concat :
    l.run (steps ++ [s]) = some l' ↔ ∃ l₁, l.run steps = some l₁ ∧ l₁.Moves s l' := by
  simp only [run_append, run_singleton]

/-- What holds at first, and is kept by every step, holds of every run. -/
theorem run_induction {P : List Step → Launch → Prop} {l₀ : Launch} (start : P [] l₀)
    (move : ∀ {steps l s l'}, l₀.run steps = some l → P steps l → l.Moves s l' →
      P (steps ++ [s]) l') :
    ∀ {steps l}, l₀.run steps = some l → P steps l :=
  run_invariant start fun hrun hl hstep => move hrun hl (step_moves hstep)

/-- A preorder that every step respects is respected by every run. -/
theorem run_rel {R : Launch → Launch → Prop} [IsPreorder Launch R]
    (move : ∀ {l s l'}, l.Moves s l' → R l l') {l₀ : Launch} (h : l₀.run steps = some l) :
    R l₀ l :=
  run_preorder (fun hstep => move (step_moves hstep)) h

/-! ## What stays -/

/-- The child `d` is what has become of `c`. -/
structure Becomes (c d : Child) : Prop where
  name : d.name = c.name
  pid : d.pid = c.pid
  critical : d.critical = c.critical
  ended : ∀ status, c.status = some status → d.status = some status
  asked : c.asked = true → d.asked = true
  done : c.watch = .done → d.watch = .done

instance : IsPreorder Child Becomes where
  refl _ := ⟨rfl, rfl, rfl, fun _ h => h, fun h => h, fun h => h⟩
  trans _ _ _ h k := {
    name := k.name.trans h.name
    pid := k.pid.trans h.pid
    critical := k.critical.trans h.critical
    ended := fun status hs => k.ended status (h.ended status hs)
    asked := fun ha => k.asked (h.asked ha)
    done := fun hd => k.done (h.done hd) }

theorem Changes.becomes (h : l.Changes i c s c') : Becomes c c' := by
  cases h with
  | exits running =>
    exact ⟨rfl, rfl, rfl, fun _ hs => by simp [running] at hs, fun h => h, fun h => h⟩
  | joins | parts => exact ⟨rfl, rfl, rfl, fun _ h => h, fun h => h, fun h => h⟩
  | heeds requested waiting =>
    exact ⟨rfl, rfl, rfl, fun _ h => h, fun _ => rfl, fun hd => by simp [waiting] at hd⟩
  | expires stopping =>
    exact ⟨rfl, rfl, rfl, fun _ h => h, fun h => h, fun hd => by simp [stopping] at hd⟩
  | givesUp expired =>
    exact ⟨rfl, rfl, rfl, fun _ h => h, fun h => h, fun hd => by simp [expired] at hd⟩
  | kills killing =>
    exact ⟨rfl, rfl, rfl, fun _ h => h, fun h => h, fun hd => by simp [killing] at hd⟩

theorem becomes_done (c : Child) : Becomes c { c with watch := .done } :=
  ⟨rfl, rfl, rfl, fun _ h => h, fun h => h, fun _ => rfl⟩

theorem Touches.becomes (h : l.Touches i c s c') : Becomes c c' := by
  cases h with
  | passes other => exact refl c
  | changes change => exact change.becomes
  | notices => exact becomes_done c

/-- The launch `l'` is what has become of `l`: no child and no end that was taken is lost. -/
structure Proceeds (l l' : Launch) : Prop where
  children : ∀ (i : Nat) (c : Child), l.children[i]? = some c →
    ∃ c', l'.children[i]? = some c' ∧ Becomes c c'
  taken : l.taken <+: l'.taken
  stopRequested : l.stopRequested = true → l'.stopRequested = true

instance : IsPreorder Launch Proceeds where
  refl _ := ⟨fun _ c h => ⟨c, h, refl c⟩, List.prefix_rfl, fun h => h⟩
  trans _ _ _ h k := {
    children := fun i c hc => by
      obtain ⟨d, hd, hcd⟩ := h.children i c hc
      obtain ⟨e, he, hde⟩ := k.children i d hd
      exact ⟨e, he, IsTrans.trans _ _ _ hcd hde⟩
    taken := h.taken.trans k.taken
    stopRequested := fun hs => k.stopRequested (h.stopRequested hs) }

theorem Moves.proceeds (h : l.Moves s l') : Proceeds l l' where
  children i c found := by
    obtain ⟨c', found', touches⟩ := h.touches found
    exact ⟨c', found', touches.becomes⟩
  taken := by
    cases h with
    | takes | receives | receivesCritical | collects => exact List.prefix_append _ _
    | starts | fails | changes | notices | closes | stops | concludes => exact List.prefix_rfl
  stopRequested := by
    intro hs
    cases h with
    | fails | receivesCritical | closes | stops => rfl
    | starts | changes | notices | takes | receives | collects | concludes => exact hs

theorem run_proceeds (h : l.run steps = some l') : Proceeds l l' :=
  run_rel Moves.proceeds h

/-! ## The end of a launch -/

/-- A launch is over because it is, or because all of its ends were taken while it was being
stopped. -/
theorem Moves.over {result : Except LaunchCause StopReport} (h : l.Moves s l')
    (hs : l'.stage = .over result) :
    l.stage = .over result ∨
      ∃ failure, l.stage = .stopping failure ∧ l.isClosed = true ∧ s = .conclude ∧
        l' = { l with stage := .over result } ∧ result = failure.elim (.ok l.report) .error := by
  cases h with
  | starts | fails | receivesCritical | closes | stops => cases hs
  | changes | notices | takes | receives | collects => exact .inl hs
  | @concludes failure stage closed =>
    cases hs
    exact .inr ⟨failure, stage, closed, rfl, rfl, rfl⟩

/-- When the launch is over and no more ends will come, nothing is noticed or taken any more. -/
theorem Moves.stays_over {result : Except LaunchCause StopReport} (h : l.Moves s l')
    (hs : l.stage = .over result) (hc : l.isClosed = true) :
    l'.taken = l.taken ∧ l'.isClosed = true := by
  obtain ⟨hpending, hdone⟩ := isClosed_iff.mp hc
  cases h with
  | changes found change =>
    have hc' := change.becomes.done (hdone _ (List.mem_of_getElem? found))
    exact ⟨rfl, isClosed_iff.mpr ⟨hpending, forall_mem_setChild _ _ _ hc' hdone⟩⟩
  | notices found _ unnoticed => exact absurd (hdone _ (List.mem_of_getElem? found)) unnoticed
  | starts stage | fails stage | takes stage | receives stage | receivesCritical stage
  | closes stage | stops stage | collects stage | concludes stage => simp [stage] at hs

/-- A launch that is over holds all of its ends, and reports them in some order. -/
theorem run_over {l₀ : Launch} {result : Except LaunchCause StopReport}
    (h : l₀.run steps = some l) (hl₀ : ∀ result, l₀.stage ≠ .over result)
    (hs : l.stage = .over result) :
    l.isClosed = true ∧ ∀ report, result = .ok report → report.exits.Perm l.taken := by
  refine run_induction (P := fun _ l => ∀ result, l.stage = .over result →
    l.isClosed = true ∧ ∀ report, result = .ok report → report.exits.Perm l.taken)
    (fun result hs => absurd hs (hl₀ result)) ?_ h result hs
  intro steps l s l' _ hl h result hs
  obtain hover | ⟨failure, stage, closed, rfl, rfl, rfl⟩ := h.over hs
  · obtain ⟨closed, perm⟩ := hl result hover
    obtain ⟨htaken, closed'⟩ := h.stays_over hover closed
    exact ⟨closed', htaken ▸ perm⟩
  · refine ⟨closed, fun report hr => ?_⟩
    cases failure with
    | none =>
      cases hr
      exact List.mergeSort_perm _ _
    | some cause => cases hr

end Launch

end LaunchPlan
