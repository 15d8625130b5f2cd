import LaunchPlan.Proofs.Stopping

/-!
# The groups of the children

A child is the first program of its group. Other programs join the group and end when they like, also
after the child has ended. A child that is found running when its grace period is over is killed, and
its whole group with it. A child that ends before that is not killed, and what its group has left goes
on running: stopping a launch waits for the children, not for their groups.
-/

namespace LaunchPlan

namespace Launch

variable {m : Manifest} {l l' : Launch} {s : Step} {steps : List Step} {i : Nat} {c c' : Child}

/-! ## What steps say of a group -/

/-- By the step a program joins the group of the child at a place. -/
def Step.joins (i : Nat) : Step → Bool
  | .join j => j = i
  | _ => false

/-- By the step a program of the group of the child at a place ends. -/
def Step.parts (i : Nat) : Step → Bool
  | .part j => j = i
  | _ => false

/-- The steps say how many other programs of a group run: none when the group was killed, and else
those that have joined and have not ended. -/
structure Grouped (steps : List Step) (i : Nat) (c : Child) : Prop where
  killed : .kill i ∈ steps → c.followers = 0
  left : .kill i ∉ steps → c.followers + steps.countP (Step.parts i) = steps.countP (Step.joins i)

theorem Step.joins_of_other (hs : s.child? ≠ some i) : s.joins i = false := by
  cases s with
  | join j => simpa [child?, joins] using hs
  | _ => rfl

theorem Step.parts_of_other (hs : s.child? ≠ some i) : s.parts i = false := by
  cases s with
  | part j => simpa [child?, parts] using hs
  | _ => rfl

theorem Grouped.fresh {name : String} {pid : Nat} {critical : Bool}
    (h : ∀ s ∈ steps, s.child? ≠ some i) : Grouped steps i { name, pid, critical } where
  killed _ := rfl
  left _ := by
    have hjoins : steps.countP (Step.joins i) = 0 :=
      List.countP_eq_zero.mpr fun s hs => by simp [Step.joins_of_other (h s hs)]
    have hparts : steps.countP (Step.parts i) = 0 :=
      List.countP_eq_zero.mpr fun s hs => by simp [Step.parts_of_other (h s hs)]
    rw [hjoins, hparts]

/-- A step by which nothing joins the group or leaves it, and by which it is not killed. -/
theorem Grouped.keep (h : Grouped steps i c) (joins : s.joins i = false) (parts : s.parts i = false)
    (kill : s ≠ .kill i) (followers : c'.followers = c.followers) :
    Grouped (steps ++ [s]) i c' where
  killed hk := by
    have hk : .kill i ∈ steps := (mem_concat.mp hk).resolve_right (Ne.symm kill)
    rw [followers, h.killed hk]
  left hk := by
    have hk : .kill i ∉ steps := fun hm => hk (List.mem_append_left _ hm)
    simpa [List.countP_append, joins, parts, followers] using h.left hk

/-- Nothing joins the group of a child that was killed. -/
theorem Recorded.not_killed (h : Recorded steps i c) (alive : c.watch ≠ .killed)
    (group : c.status = none ∨ c.followers ≠ 0) (hg : Grouped steps i c) : .kill i ∉ steps := by
  intro hk
  obtain ⟨hgone, hsent⟩ := h.killed.mp hk
  by_cases hd : c.watch = .done
  · exact group.elim (h.reaped hd) fun hf => hf (hg.killed hk)
  · exact ((h.gaveUp hd).mp hgone).elim hsent alive

theorem Grouped.change (h : Grouped steps i c) (hr : Recorded steps i c) (hc : l.Changes i c s c') :
    Grouped (steps ++ [s]) i c' := by
  cases hc with
  | exits running => exact h.keep rfl rfl nofun rfl
  | joins alive group =>
    have hk := hr.not_killed alive (group.imp_right Nat.ne_of_gt) h
    refine ⟨fun hm => absurd hm (by simpa using hk), fun _ => ?_⟩
    have hleft := h.left hk
    simp only [List.countP_append, List.countP_singleton, Step.joins, Step.parts, decide_true,
      if_true, Bool.false_eq_true, if_false]
    omega
  | parts followed =>
    have hk : .kill i ∉ steps := fun hm => Nat.ne_of_gt followed (h.killed hm)
    refine ⟨fun hm => absurd hm (by simpa using hk), fun _ => ?_⟩
    have hleft := h.left hk
    simp only [List.countP_append, List.countP_singleton, Step.joins, Step.parts, decide_true,
      if_true, Bool.false_eq_true, if_false]
    omega
  | heeds | expires | givesUp => exact h.keep rfl rfl nofun rfl
  | kills killing => exact ⟨fun _ => rfl, fun hk => absurd (by simp) hk⟩

theorem Grouped.touch (h : Grouped steps i c) (hr : Recorded steps i c) (ht : l.Touches i c s c') :
    Grouped (steps ++ [s]) i c' := by
  cases ht with
  | passes other =>
    exact h.keep (Step.joins_of_other other) (Step.parts_of_other other)
      (fun hs => other (hs ▸ rfl)) rfl
  | changes change => exact h.change hr change
  | notices => exact h.keep rfl rfl nofun rfl

theorem run_grouped (h : (ofManifest m).run steps = some l) (found : l.children[i]? = some c) :
    Grouped steps i c := by
  refine run_induction (P := fun steps l => ∀ (i : Nat) (c : Child), l.children[i]? = some c →
    Grouped steps i c) (by simp [ofManifest]) ?_ h i c found
  intro steps l s l' hrun hg hmove i c' found
  have hb := run_booked hrun
  obtain ⟨c, hc, touches⟩ | ⟨rfl, p, rest, pid, -, rfl, rfl⟩ := hmove.touched found
  · exact (hg i c hc).touch (hb.recorded i c hc) touches
  · exact Grouped.fresh hb.unnamed

/-! ## What is left when a launch is over -/

/-- Nothing of the groups of the children runs any more. -/
def Cleared (l : Launch) : Prop :=
  ∀ c ∈ l.children, c.status ≠ none ∧ c.followers = 0

/-- However a launch is over, each of its children has ended, and was asked to stop with its group
unless it ended before that. Of its group nothing runs if the child still ran when it was looked after
at the end of its grace period. If it did not, then all programs run that have joined the group and
have not ended by themselves. -/
theorem group_of_over {result : Except LaunchCause StopReport}
    (h : (ofManifest m).run steps = some l) (hs : l.stage = .over result)
    (found : l.children[i]? = some c) :
    c.status ≠ none ∧
    (c.asked = true ∨ EndsUnasked (ofManifest m) steps i) ∧
    (Outlived m steps i → c.followers = 0) ∧
    (¬ Outlived m steps i →
      c.followers + steps.countP (Step.parts i) = steps.countP (Step.joins i)) := by
  have closed := (run_over h nofun hs).1
  have hdone := (isClosed_iff.mp closed).2 c (List.mem_of_getElem? found)
  have hrecorded := (run_booked h).recorded i c found
  have ended := hrecorded.reaped hdone
  have hgrouped := run_grouped h found
  have hkilled : .kill i ∈ steps ↔ Outlived m steps i := by
    rw [hrecorded.killed, ← giveUp_mem_iff h]
    simp [hdone]
  rw [← hkilled]
  have hasked := run_asked h (by simp [ofManifest]) found ended
  exact ⟨ended, hasked, hgrouped.killed, hgrouped.left⟩

/-- Both processes of `pair` start other programs. The first process ends when it is asked to, and
leaves one of them; the second one is killed with its group. -/
def groups : List Step :=
  [.start (.ok 10), .join 0, .join 0, .start (.ok 11), .join 1, .stop, .heed 0, .part 0, .heed 1,
    .exit 0 (.signaled 15), .notice 0, .expire 1, .giveUp 1, .kill 1, .exit 1 (.signaled 9), .notice 1,
    .collect, .collect, .conclude]

theorem groups_left : ∃ l c d result, (ofManifest pair).run groups = some l ∧
    l.stage = .over result ∧ l.children = [c, d] ∧
    ¬ Outlived pair groups 0 ∧ c.followers = 1 ∧ Outlived pair groups 1 ∧ d.followers = 0 := by
  have hrun : (ofManifest pair).run groups = some _ := rfl
  have spared : ¬ Outlived pair groups 0 := by
    rw [← giveUp_mem_iff hrun]
    simp [groups]
  have outlived : Outlived pair groups 1 := by
    rw [← giveUp_mem_iff hrun]
    simp [groups]
  obtain ⟨-, -, -, hleft⟩ := group_of_over hrun rfl (i := 0) rfl
  obtain ⟨-, -, hkilled, -⟩ := group_of_over hrun rfl (i := 1) rfl
  exact ⟨_, _, _, _, hrun, rfl, rfl, spared, Nat.add_right_cancel (hleft spared), outlived,
    hkilled outlived⟩

/-- A process that ends when it is asked to, and a program of its group that does not. -/
def deserted : List Step :=
  [.start (.ok 10), .join 0, .start (.ok 11), .stop, .heed 0, .heed 1, .exit 0 (.signaled 15),
    .notice 0, .exit 1 (.signaled 15), .notice 1, .collect, .collect, .conclude]

/-- Not every launch that is over has cleared the groups of its children. -/
theorem deserted_not_cleared : ¬ ∀ (m : Manifest) (steps : List Step) (l : Launch)
    (result : Except LaunchCause StopReport), (ofManifest m).run steps = some l →
      l.stage = .over result → Cleared l := by
  intro h
  have hrun : (ofManifest pair).run deserted = some _ := rfl
  have hcleared := h pair deserted _ _ hrun rfl
  exact absurd (hcleared _ (.head _)).2 (by decide)

end Launch

end LaunchPlan
