import LaunchPlan.Proofs.Stopping

/-!
# The verdict

A complete launch is watched until it is to be stopped, until there are no more ends to take, or
until the end of a critical process is received. The first such end is what the launch comes to; if
there is none, it comes to a report of every child. What is taken after the watching has ended has no
part in this.
-/

namespace LaunchPlan

namespace Launch

variable {m : Manifest} {l l' l₀ l₁ : Launch} {s : Step} {prior steps more : List Step}
  {e : ExitEvent} {failure : Option LaunchCause}

/-- The end that is received in a step of watching. -/
def receivedIn (l : Launch) : Step → List ExitEvent
  | .watch => l.pending.take 1
  | _ => []

/-- The ends that are received by watching, in a run. -/
def received (l : Launch) : List Step → List ExitEvent
  | [] => []
  | s :: steps =>
    match l.step s with
    | some l' => l.receivedIn s ++ l'.received steps
    | none => []

@[simp] theorem received_nil : l.received [] = [] := rfl

theorem received_cons (h : l.Moves s l') :
    l.received (s :: steps) = l.receivedIn s ++ l'.received steps := by
  simp [received, h.step_eq]

theorem received_append (h : l.run steps = some l') :
    l.received (steps ++ more) = l.received steps ++ l'.received more := by
  induction steps generalizing l with
  | nil =>
    cases h
    rfl
  | cons s steps ih =>
    obtain ⟨l₁, hmove, hrun⟩ := run_cons.mp h
    rw [List.cons_append, received_cons hmove, received_cons hmove, ih hrun, List.append_assoc]

/-- An end is received by watching a complete launch, and then it is taken. -/
theorem Moves.of_mem_receivedIn (h : l.Moves s l') (he : e ∈ l.receivedIn s) :
    l.stage = .starting [] ∧ e ∈ l'.taken := by
  cases h with
  | receives stage next harmless | receivesCritical stage next critical =>
    obtain rfl : e = _ := by simpa [receivedIn, next] using he
    exact ⟨stage, by simp⟩
  | closes stage closed => simp [receivedIn, (isClosed_iff.mp closed).1] at he
  | changes found change => cases change <;> simp [receivedIn] at he
  | starts | fails | notices | takes | stops | collects | concludes => simp [receivedIn] at he

theorem taken_of_received (h : l.run steps = some l') (he : e ∈ l.received steps) :
    e ∈ l'.taken := by
  induction steps generalizing l with
  | nil => simp at he
  | cons s steps ih =>
    obtain ⟨l₁, hmove, hrun⟩ := run_cons.mp h
    rw [received_cons hmove, List.mem_append] at he
    obtain he | he := he
    · exact (run_proceeds hrun).taken.subset (hmove.of_mem_receivedIn he).2
    · exact ih hrun he

/-! ## Judging -/

/-- What the ends that were received mean for a launch: the first one of a critical process is a
failure. -/
def failureOf (events : List ExitEvent) : Option LaunchCause :=
  (events.find? ExitEvent.critical).map fun e => .unexpectedExit e.name e.status

theorem failureOf_append (events others : List ExitEvent) :
    failureOf (events ++ others) = (failureOf events).or (failureOf others) := by
  simp only [failureOf, List.find?_append]
  cases events.find? ExitEvent.critical <;> rfl

/-- The stage of a launch that is watched agrees with what was received. -/
inductive Judged (events : List ExitEvent) : Stage → Prop
  | watching (harmless : failureOf events = none) : Judged events (.starting [])
  | stopping : Judged events (.stopping (failureOf events))
  | ended {report : StopReport} :
    Judged events (.over ((failureOf events).elim (.ok report) .error))

theorem Moves.judged {events : List ExitEvent} (h : l.Moves s l') (hj : Judged events l.stage) :
    Judged (events ++ l.receivedIn s) l'.stage := by
  cases h with
  | starts stage | fails stage =>
    rw [stage] at hj
    cases hj
  | changes found change =>
    have hs : l.receivedIn s = [] := by cases change <;> rfl
    simpa [hs] using hj
  | notices | takes | collects => simpa [receivedIn] using hj
  | @receives e pending stage next harmless =>
    rw [stage] at hj
    obtain ⟨hnone⟩ := hj
    have hfailure : failureOf (events ++ l.receivedIn .watch) = none := by
      rw [failureOf_append, hnone]
      simp [receivedIn, next, failureOf, harmless]
    rw [stage_handOut, stage]
    exact .watching hfailure
  | @receivesCritical e pending stage next critical =>
    rw [stage] at hj
    obtain ⟨hnone⟩ := hj
    have hfailure : failureOf (events ++ l.receivedIn .watch) =
        some (.unexpectedExit e.name e.status) := by
      rw [failureOf_append, hnone]
      simp [receivedIn, next, failureOf, critical]
    rw [stage_beginStop, ← hfailure]
    exact .stopping
  | closes stage closed =>
    rw [stage] at hj
    obtain ⟨hnone⟩ := hj
    have hs : l.receivedIn .watch = [] := by simp [receivedIn, (isClosed_iff.mp closed).1]
    rw [hs, List.append_nil, stage_beginStop, ← hnone]
    exact .stopping
  | stops stage =>
    rw [stage] at hj
    obtain ⟨hnone⟩ := hj
    rw [stage_beginStop, ← hnone]
    have hj : Judged events (.stopping (failureOf events)) := .stopping
    simpa [receivedIn] using hj
  | concludes stage closed =>
    rw [stage] at hj
    cases hj
    have hj : Judged events (.over ((failureOf events).elim (.ok l.report) .error)) := .ended
    simpa [receivedIn] using hj

theorem run_judged {events : List ExitEvent} (h : l.run steps = some l')
    (hj : Judged events l.stage) : Judged (events ++ l.received steps) l'.stage := by
  induction steps generalizing l events with
  | nil =>
    cases h
    simpa using hj
  | cons s steps ih =>
    obtain ⟨l₁, hmove, hrun⟩ := run_cons.mp h
    rw [received_cons hmove, ← List.append_assoc]
    exact ih hrun (hmove.judged hj)

/-- When a launch is not to be watched any more, no end is received by watching. -/
theorem received_of_stopping (h : l.run steps = some l') (hs : ∀ rest, l.stage ≠ .starting rest) :
    l.received steps = [] := by
  induction steps generalizing l with
  | nil => rfl
  | cons s steps ih =>
    obtain ⟨l₁, hmove, hrun⟩ := run_cons.mp h
    have hnone : l.receivedIn s = [] :=
      List.eq_nil_iff_forall_not_mem.mpr fun e he => hs [] (hmove.of_mem_receivedIn he).1
    rw [received_cons hmove, hnone, ih hrun (hmove.not_starting hs), List.append_nil]

/-- From the step that ends the watching without a failure on, nothing is received. -/
theorem received_of_leaving (h : l.run (s :: steps) = some l')
    (hs : s = .stop ∨ s = .watch ∧ l.pending = []) : l.received (s :: steps) = [] := by
  obtain ⟨l₁, hmove, hrun⟩ := run_cons.mp h
  have hnone : l.receivedIn s = [] := by
    obtain rfl | ⟨rfl, hpending⟩ := hs
    · rfl
    · simp [receivedIn, hpending]
  have hstopping : l₁.stage = .stopping none := by
    cases hmove with
    | closes | stops => rfl
    | receives _ next | receivesCritical _ next => simp [next] at hs
    | changes found change => cases change <;> simp at hs
    | starts | fails | notices | takes | collects | concludes => simp at hs
  rw [received_cons hmove, hnone, received_of_stopping hrun (by simp [hstopping]),
    List.append_nil]

/-! ## What a watched launch comes to -/

/-- The result of a launch of which `events` were received by watching. -/
structure Verdict (m : Manifest) (steps : List Step) (l : Launch) (events : List ExitEvent)
    (result : Except LaunchCause StopReport) : Prop where
  /-- The first end of a critical process that was received is a failure, whatever its code. -/
  failed : ∀ name status, result = .error (.unexpectedExit name status) ↔
    ∃ e, events.find? ExitEvent.critical = some e ∧ e.name = name ∧ e.status = status
  /-- Without one, every child is reported. -/
  reported : events.find? ExitEvent.critical = none →
    ∃ report, result = .ok report ∧ OneForEach steps l report.exits
  started : l.children.map (fun c => (c.name, c.critical)) =
    m.processes.map fun p => (p.displayName, p.critical)
  ended : ∀ c ∈ l.children, c.status ≠ none

theorem Judged.verdict {events : List ExitEvent} {result : Except LaunchCause StopReport}
    (h : (ofManifest m).run steps = some l) (hj : Judged events l.stage)
    (hs : l.stage = .over result) : Verdict m steps l events result := by
  obtain ⟨closed, perm⟩ := run_over h nofun hs
  have hbooked := run_booked h
  obtain ⟨report, hresult⟩ : ∃ report, result = (failureOf events).elim (.ok report) .error := by
    rw [hs] at hj
    cases hj
    exact ⟨_, rfl⟩
  constructor
  · intro name status
    cases hf : events.find? ExitEvent.critical with
    | none => simp [hresult, failureOf, hf]
    | some e => simp [hresult, failureOf, hf]
  · intro hnone
    have hok : result = .ok report := by simp [hresult, failureOf, hnone]
    exact ⟨report, hok, (hbooked.oneForEach closed).perm (perm report hok)⟩
  · refine (run_follows h).all_started fun rest hrest => ?_
    rw [hs] at hrest
    cases hrest with
    | ended => rfl
    | failed => cases hf : events.find? ExitEvent.critical <;> simp [failureOf, hf] at hresult
  · intro c hc
    obtain ⟨i, found⟩ := List.getElem?_of_mem hc
    exact (hbooked.recorded i c found).reaped ((isClosed_iff.mp closed).2 c hc)

/-- What holds when a watched launch is being stopped, of what is still to come. -/
structure Decided (l₁ : Launch) (failure : Option LaunchCause) (after : List Step) (l : Launch) :
    Prop where
  /-- Nothing that happens while the launch is being stopped changes the verdict. -/
  silent : l₁.received after = []
  stands : ∀ result, l.stage = .over result → ∃ report, result = failure.elim (.ok report) .error
  /-- The watchers of all children know that the launch is to be stopped. -/
  requested : l₁.stopRequested = true
  /-- A child that still runs was asked to stop or can be asked. -/
  asking : ∀ (i : Nat) (c : Child), l₁.children[i]? = some c → c.status = none →
    c.asked = true ∨ ∃ l₂, l₁.step (.heed i) = some l₂
  /-- A child that still ran and has ended was asked to stop, or ended before it was. -/
  asked : ∀ (i : Nat) (c c' : Child), l₁.children[i]? = some c → c.status = none →
    l.children[i]? = some c' → c'.status ≠ none → c'.asked = true ∨ EndsUnasked l₁ after i

theorem run_decided {before after : List Step} (h : (ofManifest m).run before = some l₁)
    (hs : l₁.stage = .stopping failure) (hafter : l₁.run after = some l) :
    Decided l₁ failure after l where
  silent := received_of_stopping hafter fun rest hr => by simp [hs] at hr
  stands result hr := by
    obtain hl | ⟨report, hl⟩ := run_stopping hafter hs
    · simp [hl] at hr
    · exact ⟨report, Stage.over.inj (hr.symm.trans hl)⟩
  requested := run_stopRequested h hs
  asking i c found running := (can_be_asked h hs found running).imp_right
    fun ⟨l₂, hm⟩ => ⟨l₂, hm.step_eq⟩
  asked i c c' found running found' ended :=
    asked_or_endsUnasked hafter found running found' ended

/-- The verdict on a launch that is watched from the moment at which all processes are started, for
every order in which children end, their ends are noticed and received, and the launch is to be
stopped.

When it is over, it has failed exactly if the end of a critical process was received by watching, and
nothing is received any more when the launch was stopped or there were no more ends. What is received
are accounts of children. From the moment at which the launch is being stopped, what it comes to is
decided. It is over only when all children have ended, and when they have, it comes to its end. -/
theorem verdict_of_watching (hprior : (ofManifest m).run prior = some l₀)
    (complete : l₀.stage = .starting []) (h : l₀.run steps = some l) :
    (∀ result, l.stage = .over result →
      Verdict m (prior ++ steps) l (l₀.received steps) result) ∧
    (∀ e ∈ l₀.received steps, ∃ (i : Nat) (c : Child), l.children[i]? = some c ∧
      Account (prior ++ steps) i c e) ∧
    (∀ before s after l₁, steps = before ++ s :: after → l₀.run before = some l₁ →
      s = .stop ∨ s = .watch ∧ l₁.pending = [] → l₀.received steps = l₀.received before) ∧
    (∀ before after l₁ failure, steps = before ++ after → l₀.run before = some l₁ →
      l₁.stage = .stopping failure → Decided l₁ failure after l) ∧
    ∀ failure, l.stage = .stopping failure → (∀ c ∈ l.children, c.status ≠ none) →
      ∃ more l' report, l.run more = some l' ∧
        l'.stage = .over (failure.elim (.ok report) .error) := by
  have hrun : (ofManifest m).run (prior ++ steps) = some l := run_append.mpr ⟨l₀, hprior, h⟩
  refine ⟨fun result hs => ?_, fun e he => ?_, ?_, ?_, fun failure => run_concluding⟩
  · have hstart : Judged [] l₀.stage := complete ▸ .watching rfl
    have hj : Judged (l₀.received steps) l.stage := run_judged h hstart
    exact hj.verdict hrun hs
  · obtain ⟨i, c, found, -, account⟩ :=
      (run_booked hrun).account (List.mem_append_left _ (taken_of_received h he))
    exact ⟨i, c, found, account⟩
  · rintro before s after l₁ rfl hbefore hs
    rw [received_append hbefore, received_of_leaving (run_of_append h hbefore) hs,
      List.append_nil]
  · rintro before after l₁ failure rfl hbefore hs
    have hwhole : (ofManifest m).run (prior ++ before) = some l₁ :=
      run_append.mpr ⟨l₀, hprior, hbefore⟩
    exact run_decided hwhole hs (run_of_append h hbefore)

/-- A critical process that ends well, and another one that has to be stopped then. -/
def guarded : Manifest :=
  ⟨[{ executable := "planner", critical := true }, { executable := "viewer" }]⟩

def guardedStart : List Step := [.start (.ok 20), .start (.ok 21)]

def guardedWatch : List Step :=
  [.exit 0 (.exited 0), .notice 0, .watch, .heed 1, .exit 1 (.signaled 15), .notice 1, .collect,
    .conclude]

theorem guarded_fails : ∃ l₀ l, (ofManifest guarded).run guardedStart = some l₀ ∧
    l₀.stage = .starting [] ∧ l₀.run guardedWatch = some l ∧
    l.stage = .over (.error (.unexpectedExit "planner" "exit code 0")) ∧
    ∃ e, (l₀.received guardedWatch).find? ExitEvent.critical = some e ∧
      e.name = "planner" ∧ e.status = "exit code 0" := by
  have hstart : ((ofManifest guarded).run guardedStart).map stage = some (.starting []) := rfl
  have hover : ((ofManifest guarded).run (guardedStart ++ guardedWatch)).map stage =
      some (.over (.error (.unexpectedExit "planner" "exit code 0"))) := rfl
  obtain ⟨l₀, hprior, complete⟩ := Option.map_eq_some_iff.mp hstart
  obtain ⟨l, hrun, hs⟩ := Option.map_eq_some_iff.mp hover
  have h : l₀.run guardedWatch = some l := run_of_append hrun hprior
  have hverdict := (verdict_of_watching hprior complete h).1 _ hs
  exact ⟨l₀, l, hprior, complete, h, hs, (hverdict.failed _ _).mp rfl⟩

end Launch

end LaunchPlan
