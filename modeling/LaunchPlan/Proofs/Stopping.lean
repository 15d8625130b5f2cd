import LaunchPlan.Proofs.ExitAccounts

/-!
# Stopping a launch

From the moment at which a launch is to be stopped, this is known to the watchers of all children,
and nothing but the end of the stopping changes what the launch is being stopped for. A child that
runs is asked to stop, unless it ends before it is asked. When all children have ended, the launch
comes to its end, whatever is still to be noticed and taken.
-/

namespace LaunchPlan

namespace Launch

variable {m : Manifest} {l l' : Launch} {s : Step} {steps more : List Step} {i : Nat} {c : Child}
  {failure : Option LaunchCause}

/-- A launch that is being stopped goes on to be stopped for the same reason until it is over. -/
theorem Moves.stopping (h : l.Moves s l') (hs : l.stage = .stopping failure) :
    l'.stage = .stopping failure ∨ l'.stage = .over (failure.elim (.ok l.report) .error) := by
  cases h with
  | changes | notices | collects => exact .inl hs
  | concludes stage closed =>
    obtain rfl := Stage.stopping.inj (stage.symm.trans hs)
    exact .inr rfl
  | starts stage | fails stage | takes stage | receives stage | receivesCritical stage
  | closes stage | stops stage => simp [stage] at hs

/-- What is over stays as it is. -/
theorem Moves.stays {result : Except LaunchCause StopReport} (h : l.Moves s l')
    (hs : l.stage = .over result) : l'.stage = .over result := by
  cases h with
  | changes | notices => exact hs
  | starts stage | fails stage | takes stage | receives stage | receivesCritical stage
  | closes stage | stops stage | collects stage | concludes stage => simp [stage] at hs

/-- A launch that is being stopped, or is over, starts no processes any more. -/
theorem Moves.not_starting (h : l.Moves s l') (hs : ∀ rest, l.stage ≠ .starting rest) :
    ∀ rest, l'.stage ≠ .starting rest := by
  cases h with
  | starts stage => exact absurd stage (hs _)
  | changes | notices | takes | receives | collects => exact hs
  | fails | receivesCritical | closes | stops | concludes => exact nofun

/-- The reason for stopping decides what the launch comes to. -/
theorem run_stopping (h : l.run steps = some l') (hs : l.stage = .stopping failure) :
    l'.stage = .stopping failure ∨ ∃ report, l'.stage = .over (failure.elim (.ok report) .error) := by
  refine run_induction (P := fun _ l' => l'.stage = .stopping failure ∨
    ∃ report, l'.stage = .over (failure.elim (.ok report) .error)) (.inl hs) ?_ h
  intro _ l₁ s l₂ _ hl₁ hmove
  obtain hl₁ | ⟨report, hl₁⟩ := hl₁
  · exact (hmove.stopping hl₁).imp_right fun h => ⟨l₁.report, h⟩
  · exact .inr ⟨report, hmove.stays hl₁⟩

/-- While a launch is being stopped, the watchers of its children know it. -/
theorem run_stopRequested (h : (ofManifest m).run steps = some l) (hs : l.stage = .stopping failure) :
    l.stopRequested = true := by
  refine run_induction (P := fun _ l => ∀ failure, l.stage = .stopping failure →
    l.stopRequested = true) (by simp [ofManifest]) ?_ h failure hs
  intro _ l s l' _ hl hmove failure hs
  cases hmove with
  | starts | concludes => cases hs
  | fails | receivesCritical | closes | stops => rfl
  | changes | notices | takes | receives | collects => exact hl failure hs

/-! ## Asking -/

/-- A child that runs while the launch is being stopped was asked to stop or can be asked. -/
theorem can_be_asked (h : (ofManifest m).run steps = some l) (hs : l.stage = .stopping failure)
    (found : l.children[i]? = some c) (running : c.status = none) :
    c.asked = true ∨ ∃ l', l.Moves (.heed i) l' := by
  have hrecorded := (run_booked h).recorded i c found
  have hwatch : c.watch ≠ .done := fun hd => hrecorded.reaped hd running
  by_cases hwaiting : c.watch = .waiting
  · exact .inr ⟨_, .changes found (.heeds (run_stopRequested h hs) hwaiting)⟩
  · exact .inl ((hrecorded.asked hwatch).mpr hwaiting)

/-- In the steps the child at a place ends before it is asked to stop. -/
def EndsUnasked (l : Launch) (steps : List Step) (i : Nat) : Prop :=
  ∃ before after status l₁ c, steps = before ++ .exit i status :: after ∧
    l.run before = some l₁ ∧ l₁.children[i]? = some c ∧ c.asked = false

theorem EndsUnasked.append (h : EndsUnasked l steps i) : EndsUnasked l (steps ++ more) i := by
  obtain ⟨before, after, status, l₁, c, rfl, hbefore, found, unasked⟩ := h
  exact ⟨before, after ++ more, status, l₁, c, by simp, hbefore, found, unasked⟩

/-- A running child ends by a step that says so. -/
theorem Touches.ends {c' : Child} (h : l.Touches i c s c') (running : c.status = none)
    (ended : c'.status ≠ none) : ∃ status, s = .exit i status := by
  cases h with
  | passes other => exact absurd running ended
  | changes change =>
    cases change with
    | @exits status running => exact ⟨status, rfl⟩
    | joins | parts | heeds | expires | givesUp | kills => exact absurd running ended
  | notices => exact absurd running ended

/-- A child that ends in a run is asked to stop or ends before it is asked. -/
theorem run_asked (h : l.run steps = some l')
    (running : ∀ c, l.children[i]? = some c → c.status = none)
    (found : l'.children[i]? = some c) (ended : c.status ≠ none) :
    c.asked = true ∨ EndsUnasked l steps i := by
  refine run_induction (P := fun steps l' => ∀ c, l'.children[i]? = some c → c.status ≠ none →
    c.asked = true ∨ EndsUnasked l steps i) (fun c hc ended => absurd (running c hc) ended) ?_ h
    c found ended
  intro steps l₁ s l₂ hrun hl₁ hmove c₂ found₂ ended
  obtain ⟨c₁, found₁, touches⟩ | ⟨-, p, rest, pid, -, -, rfl⟩ := hmove.touched found₂
  · by_cases running₁ : c₁.status = none
    · -- This is the step by which the child ends, and whether it was asked is seen before it.
      obtain ⟨status, rfl⟩ := touches.ends running₁ ended
      cases hasked : c₁.asked with
      | true => exact .inl (touches.becomes.asked hasked)
      | false => exact .inr ⟨steps, [], status, l₁, c₁, rfl, hrun, found₁, hasked⟩
    · exact (hl₁ c₁ found₁ running₁).imp touches.becomes.asked .append
  · exact absurd rfl ended

theorem asked_or_endsUnasked {c' : Child} (h : l.run steps = some l')
    (found : l.children[i]? = some c) (running : c.status = none)
    (found' : l'.children[i]? = some c') (ended : c'.status ≠ none) :
    c'.asked = true ∨ EndsUnasked l steps i := by
  refine run_asked h (fun d hd => ?_) found' ended
  obtain rfl : c = d := Option.some.inj (found.symm.trans hd)
  exact running

/-! ## Coming to the end -/

/-- A child that has ended can be noticed, after it was killed if it was given up before. -/
theorem can_be_noticed {status : ExitStatus} (found : l.children[i]? = some c)
    (ended : c.status = some status) (unnoticed : c.watch ≠ .done) :
    ∃ steps l' d, l.run steps = some l' ∧ l'.stage = l.stage ∧
      l'.children = l.children.set i d ∧ d.watch = .done ∧ d.status = some status := by
  by_cases settled : c.watch = .killing
  · have hlt : i < l.children.length := (List.getElem?_eq_some_iff.mp found).1
    have hkill := Moves.changes found (.kills settled)
    have found' := List.getElem?_set_self (a := { c with watch := .killed, followers := 0 }) hlt
    have hnotice := Moves.notices (l := l.setChild i _) found' ended nofun nofun
    exact ⟨[.kill i, .notice i], _, _, run_cons.mpr ⟨_, hkill, run_singleton.mpr hnotice⟩, rfl,
      List.set_set _, rfl, ended⟩
  · exact ⟨[.notice i], _, _, run_singleton.mpr (.notices found ended unnoticed settled), rfl, rfl,
      rfl, ended⟩

/-- Children that have ended can all be noticed. -/
theorem run_noticing (ended : ∀ c ∈ l.children, c.status ≠ none) :
    ∃ steps l', l.run steps = some l' ∧ l'.stage = l.stage ∧
      ∀ c ∈ l'.children, c.watch = .done := by
  -- Whenever a child is noticed, there is one child less of which the end is to be noticed.
  induction hn : l.children.countP (fun c => c.watch ≠ .done) generalizing l with
  | zero =>
    have hdone : ∀ c ∈ l.children, c.watch = .done := by simpa [List.countP_eq_zero] using hn
    exact ⟨[], l, rfl, rfl, hdone⟩
  | succ n ih =>
    obtain ⟨c, hc, unnoticed⟩ : ∃ c ∈ l.children, c.watch ≠ .done := by
      have hpos : 0 < l.children.countP (fun c => c.watch ≠ .done) := by omega
      simpa using List.countP_pos_iff.mp hpos
    obtain ⟨status, hstatus⟩ := Option.ne_none_iff_exists'.mp (ended c hc)
    obtain ⟨i, hi, hget⟩ := List.getElem_of_mem hc
    have found : l.children[i]? = some c := List.getElem?_eq_some_iff.mpr ⟨hi, hget⟩
    obtain ⟨first, l₁, d, hfirst, hstage₁, hchildren, hdone, hkept⟩ :=
      can_be_noticed found hstatus unnoticed
    have hended : ∀ d ∈ l₁.children, d.status ≠ none := by
      rw [hchildren]
      exact forall_mem_setChild l i d (by simp [hkept]) ended
    have hcount : l₁.children.countP (fun c => c.watch ≠ .done) = n := by
      rw [hchildren, List.countP_set hi, hget, hn]
      simp [unnoticed, hdone]
    obtain ⟨steps, l', hrun, hstage, hall⟩ := ih hended hcount
    exact ⟨first ++ steps, l', run_append.mpr ⟨l₁, hfirst, hrun⟩, hstage.trans hstage₁, hall⟩

/-- While a launch is being stopped, all that waits in the queue can be taken. -/
theorem run_collecting (hs : l.stage = .stopping failure) :
    ∃ steps l', l.run steps = some l' ∧ l'.stage = .stopping failure ∧
      l'.children = l.children ∧ l'.pending = [] := by
  induction hp : l.pending generalizing l with
  | nil => exact ⟨[], l, rfl, hs, rfl, hp⟩
  | cons e pending ih =>
    obtain ⟨steps, l', hrun, rest⟩ := ih (l := l.handOut e pending) hs rfl
    exact ⟨.collect :: steps, l', run_cons.mpr ⟨_, .collects hs hp, hrun⟩, rest⟩

/-- When all children have ended, stopping a launch is not held up by anything. -/
theorem run_concluding (hs : l.stage = .stopping failure)
    (ended : ∀ c ∈ l.children, c.status ≠ none) :
    ∃ steps l' report, l.run steps = some l' ∧
      l'.stage = .over (failure.elim (.ok report) .error) := by
  obtain ⟨noticing, l₁, hnoticing, hs₁, hdone⟩ := run_noticing ended
  obtain ⟨collecting, l₂, hcollecting, hs₂, hchildren, hpending⟩ := run_collecting (hs₁.trans hs)
  have closed : l₂.isClosed = true := isClosed_iff.mpr ⟨hpending, hchildren ▸ hdone⟩
  refine ⟨noticing ++ collecting ++ [.conclude], _, l₂.report, run_concat.mpr ⟨l₂, ?_,
    .concludes hs₂ closed⟩, rfl⟩
  exact run_append.mpr ⟨l₁, hnoticing, hcollecting⟩

end Launch

end LaunchPlan
