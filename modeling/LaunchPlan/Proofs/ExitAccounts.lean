import LaunchPlan.Proofs.LaunchOrder
import Mathlib.Data.List.Perm.Basic

/-!
# One account for each child

The end of a child is noticed once. It waits in the queue until it is taken, and nothing else comes
into the queue or leaves it. What was taken and what waits are therefore the accounts of the noticed
children, in the order in which they were noticed, and when no more ends will come there is one for
each child.
-/

namespace LaunchPlan

namespace Launch

variable {m : Manifest} {l l' : Launch} {s t : Step} {steps : List Step} {i : Nat} {c c' : Child}
  {e : ExitEvent}

/-! ## What steps say of a child -/

theorem mem_concat : t ∈ steps ++ [s] ↔ t ∈ steps ∨ t = s := by
  simp

/-- Steps that name other children say nothing of a child. -/
theorem mem_concat_of_other (hs : s.child? ≠ some i) (ht : t.child? = some i) :
    t ∈ steps ++ [s] ↔ t ∈ steps := by
  have hne : t ≠ s := fun h => hs (h ▸ ht)
  simp [hne]

/-- The child at a place is as the steps say. -/
structure Recorded (steps : List Step) (i : Nat) (c : Child) : Prop where
  ended : ∀ status, .exit i status ∈ steps ↔ c.status = some status
  noticed : .notice i ∈ steps ↔ c.watch = .done
  heeded : .heed i ∈ steps ↔ c.asked = true
  asked : c.watch ≠ .done → (c.asked = true ↔ c.watch ≠ .waiting)
  expired : c.watch ≠ .done → (.expire i ∈ steps ↔ c.watch ≠ .waiting ∧ c.watch ≠ .stopping)
  gaveUp : c.watch ≠ .done → (.giveUp i ∈ steps ↔ c.watch = .killing ∨ c.watch = .killed)
  killed : .kill i ∈ steps ↔ .giveUp i ∈ steps ∧ c.watch ≠ .killing
  patient : .giveUp i ∈ steps → c.asked = true
  reaped : c.watch = .done → c.status ≠ none

/-- Of a child that was started just now, nothing has been said. -/
theorem Recorded.fresh {name : String} {pid : Nat} {critical : Bool}
    (h : ∀ s ∈ steps, s.child? ≠ some i) : Recorded steps i { name, pid, critical } where
  ended status := by simpa using fun hs => h _ hs rfl
  noticed := by simpa using fun hs => h _ hs rfl
  heeded := by simpa using fun hs => h _ hs rfl
  asked := by simp
  expired := by simpa using fun hs => h _ hs rfl
  gaveUp := by simpa using fun hs => h _ hs rfl
  killed := ⟨fun hs => absurd rfl (h _ hs), fun hs => absurd rfl (h _ hs.1)⟩
  patient hs := absurd rfl (h _ hs)
  reaped := by simp

theorem Recorded.other (h : Recorded steps i c) (hs : s.child? ≠ some i) :
    Recorded (steps ++ [s]) i c where
  ended status := (mem_concat_of_other hs rfl).trans (h.ended status)
  noticed := (mem_concat_of_other hs rfl).trans h.noticed
  heeded := (mem_concat_of_other hs rfl).trans h.heeded
  asked := h.asked
  expired hc := (mem_concat_of_other hs rfl).trans (h.expired hc)
  gaveUp hc := (mem_concat_of_other hs rfl).trans (h.gaveUp hc)
  killed := by
    rw [mem_concat_of_other hs rfl, mem_concat_of_other hs rfl]
    exact h.killed
  patient hk := h.patient ((mem_concat_of_other hs rfl).mp hk)
  reaped := h.reaped

theorem Recorded.change (h : Recorded steps i c) (hc : l.Changes i c s c') :
    Recorded (steps ++ [s]) i c' := by
  cases hc with
  | exits running =>
    exact {
      ended := fun status => by simp [h.ended, running, eq_comm]
      noticed := by simpa using h.noticed
      heeded := by simpa using h.heeded
      asked := h.asked
      expired := by simpa using h.expired
      gaveUp := by simpa using h.gaveUp
      killed := by simpa using h.killed
      patient := by simpa using h.patient
      reaped := by simp }
  | joins | parts =>
    exact {
      ended := by simpa using h.ended
      noticed := by simpa using h.noticed
      heeded := by simpa using h.heeded
      asked := h.asked
      expired := by simpa using h.expired
      gaveUp := by simpa using h.gaveUp
      killed := by simpa using h.killed
      patient := by simpa using h.patient
      reaped := h.reaped }
  | heeds requested waiting =>
    have hunexpired : .expire i ∉ steps := by simp [h.expired, waiting]
    have hkept : .giveUp i ∉ steps := by simp [h.gaveUp, waiting]
    exact {
      ended := by simpa using h.ended
      noticed := by simp [h.noticed, waiting]
      heeded := by simp
      asked := by simp
      expired := by simp [hunexpired]
      gaveUp := by simp [hkept]
      killed := by simp [h.killed, hkept]
      patient := by simp
      reaped := by simp }
  | expires stopping =>
    have hasked : c.asked = true := by simp [h.asked, stopping]
    have hkept : .giveUp i ∉ steps := by simp [h.gaveUp, stopping]
    exact {
      ended := by simpa using h.ended
      noticed := by simp [h.noticed, stopping]
      heeded := by simpa using h.heeded
      asked := by simp [hasked]
      expired := by simp
      gaveUp := by simp [hkept]
      killed := by simp [h.killed, hkept]
      patient := fun _ => hasked
      reaped := by simp }
  | givesUp expired running =>
    have hasked : c.asked = true := by simp [h.asked, expired]
    have hkept : .giveUp i ∉ steps := by simp [h.gaveUp, expired]
    exact {
      ended := by simpa using h.ended
      noticed := by simp [h.noticed, expired]
      heeded := by simpa using h.heeded
      asked := by simp [hasked]
      expired := by simp [h.expired, expired]
      gaveUp := by simp
      killed := by simp [h.killed, hkept]
      patient := fun _ => hasked
      reaped := by simp }
  | kills killing =>
    have hasked : c.asked = true := by simp [h.asked, killing]
    have hgone : .giveUp i ∈ steps := by simp [h.gaveUp, killing]
    exact {
      ended := by simpa using h.ended
      noticed := by simp [h.noticed, killing]
      heeded := by simpa using h.heeded
      asked := by simp [hasked]
      expired := by simp [h.expired, killing]
      gaveUp := by simp [hgone]
      killed := by simp [hgone]
      patient := fun _ => hasked
      reaped := by simp }

theorem Recorded.touch (h : Recorded steps i c) (ht : l.Touches i c s c') :
    Recorded (steps ++ [s]) i c' := by
  cases ht with
  | passes other => exact h.other other
  | changes change => exact h.change change
  | notices ended unnoticed settled =>
    exact {
      ended := by simpa using h.ended
      noticed := by simp
      heeded := by simpa using h.heeded
      asked := by simp
      expired := by simp
      gaveUp := by simp
      killed := by simp [h.killed, settled]
      patient := by simpa using h.patient
      reaped := by simp [ended] }

/-! ## Accounts -/

/-- The event tells what became of the child at a place: who it was, the one way in which it ended,
and whether it was asked to stop and was given up. -/
structure Account (steps : List Step) (i : Nat) (c : Child) (e : ExitEvent) : Prop where
  name : e.name = c.name
  pid : e.pid = c.pid
  critical : e.critical = c.critical
  ended : ∃ status, (∀ other, .exit i other ∈ steps ↔ other = status) ∧
    e.code = status.code?.map Int.ofNat ∧ e.signal = status.signal?.map Int.ofNat
  requested : e.requested = true ↔ .heed i ∈ steps
  escalated : e.escalated = true ↔ .giveUp i ∈ steps

/-- What is reported when the end of a child is noticed is the account of it. -/
theorem Recorded.account {status : ExitStatus} (h : Recorded steps i c)
    (ended : c.status = some status) (unnoticed : c.watch ≠ .done) (settled : c.watch ≠ .killing) :
    Account steps i c (c.event status) where
  name := rfl
  pid := rfl
  critical := rfl
  ended := ⟨status, fun other => by simp [h.ended, ended, eq_comm], rfl, rfl⟩
  requested := by simp [Child.event, h.heeded, h.asked unnoticed]
  escalated := by simp [Child.event, h.gaveUp unnoticed, settled]

/-- A step that is not one of those which an account tells of leaves it as it is. -/
theorem Account.concat (h : Account steps i c e) (hb : Becomes c c')
    (exit : ∀ status, s ≠ .exit i status) (heed : s ≠ .heed i) (giveUp : s ≠ .giveUp i) :
    Account (steps ++ [s]) i c' e where
  name := h.name.trans hb.name.symm
  pid := h.pid.trans hb.pid.symm
  critical := h.critical.trans hb.critical.symm
  ended := by
    obtain ⟨status, ended, event⟩ := h.ended
    exact ⟨status, fun other => by simp [(exit other).symm, ended], event⟩
  requested := by simp [h.requested, heed.symm]
  escalated := by simp [h.escalated, giveUp.symm]

/-- Nothing that can still happen to a child of which the end was noticed changes its account. -/
theorem Account.touch (h : Account steps i c e) (hr : Recorded steps i c) (hd : c.watch = .done)
    (ht : l.Touches i c s c') : Account (steps ++ [s]) i c' e := by
  have hb := ht.becomes
  cases ht with
  | passes other =>
    exact h.concat hb (fun _ hs => other (hs ▸ rfl)) (fun hs => other (hs ▸ rfl))
      fun hs => other (hs ▸ rfl)
  | changes change =>
    cases change with
    | exits running => exact absurd running (hr.reaped hd)
    | joins | parts | expires | kills => exact h.concat hb nofun nofun nofun
    | heeds requested waiting => simp [waiting] at hd
    | givesUp expired => simp [expired] at hd
  | notices ended unnoticed => exact absurd hd unnoticed

/-- The children of which the ends were noticed, in this order. -/
def noticed (steps : List Step) : List Nat :=
  steps.filterMap fun
    | .notice i => some i
    | _ => none

theorem mem_noticed : i ∈ noticed steps ↔ .notice i ∈ steps := by
  simp only [noticed, List.mem_filterMap]
  constructor
  · rintro ⟨s, hs, h⟩
    split at h
    · exact Option.some.inj h ▸ hs
    · cases h
  · exact fun h => ⟨_, h, rfl⟩

/-- An end comes into the queue by being noticed, and leaves it by being taken. -/
theorem Moves.queue (h : l.Moves s l') :
    (noticed [s] = [] ∧ l'.taken ++ l'.pending = l.taken ++ l.pending) ∨
      ∃ i c status, s = .notice i ∧ l.children[i]? = some c ∧ c.status = some status ∧
        c.watch ≠ .done ∧ c.watch ≠ .killing ∧
        l'.taken ++ l'.pending = l.taken ++ l.pending ++ [c.event status] := by
  cases h with
  | @notices i c status found ended unnoticed settled =>
    exact .inr ⟨i, c, status, rfl, found, ended, unnoticed, settled, by simp⟩
  | takes _ next | receives _ next _ | receivesCritical _ next _ | collects _ next =>
    exact .inl ⟨rfl, by simp [next]⟩
  | changes found change =>
    refine .inl ⟨?_, rfl⟩
    cases change <;> rfl
  | starts | fails | closes | stops | concludes => exact .inl ⟨rfl, rfl⟩

/-- The event is the account of the child at the place, and its end was noticed. -/
def AccountsFor (steps : List Step) (l : Launch) (i : Nat) (e : ExitEvent) : Prop :=
  ∃ c, l.children[i]? = some c ∧ c.watch = .done ∧ Account steps i c e

/-- The books of a launch: what was taken and what waits are the accounts of the noticed children,
and none was noticed twice. -/
structure Booked (steps : List Step) (l : Launch) : Prop where
  named : ∀ s ∈ steps, ∀ i, s.child? = some i → i < l.children.length
  recorded : ∀ (i : Nat) (c : Child), l.children[i]? = some c → Recorded steps i c
  accounts : List.Forall₂ (AccountsFor steps l) (noticed steps) (l.taken ++ l.pending)
  once : (noticed steps).Nodup

theorem AccountsFor.move (hb : Booked steps l) (h : l.Moves s l') (ha : AccountsFor steps l i e) :
    AccountsFor (steps ++ [s]) l' i e := by
  obtain ⟨c, found, hd, account⟩ := ha
  obtain ⟨c', found', touches⟩ := h.touches found
  exact ⟨c', found', touches.becomes.done hd,
    account.touch (hb.recorded i c found) hd touches⟩

/-- The steps say nothing of a child that is started just now. -/
theorem Booked.unnamed {result : Except IoError Nat} (hb : Booked steps l) :
    ∀ t ∈ steps ++ [.start result], t.child? ≠ some l.children.length := by
  intro t ht hi
  obtain ht | rfl := mem_concat.mp ht
  · exact Nat.lt_irrefl _ (hb.named t ht _ hi)
  · cases hi

theorem noticed_append (steps more : List Step) :
    noticed (steps ++ more) = noticed steps ++ noticed more :=
  List.filterMap_append

theorem Booked.move (hb : Booked steps l) (h : l.Moves s l') : Booked (steps ++ [s]) l' where
  named t ht i hi := by
    refine Nat.lt_of_lt_of_le ?_ h.length_le
    obtain ht | rfl := mem_concat.mp ht
    · exact hb.named t ht i hi
    · exact h.child_lt hi
  recorded i c' found := by
    obtain ⟨c, hc, touches⟩ | ⟨rfl, p, rest, pid, -, rfl, rfl⟩ := h.touched found
    · exact (hb.recorded i c hc).touch touches
    · exact Recorded.fresh hb.unnamed
  accounts := by
    -- The accounts that there are stay right, and noticing adds one on both sides.
    have hkept := hb.accounts.imp fun _ _ => AccountsFor.move hb h
    rw [noticed_append]
    obtain ⟨hs, queue⟩ | ⟨i, c, status, rfl, found, ended, unnoticed, settled, queue⟩ := h.queue
    · rw [hs, List.append_nil, queue]
      exact hkept
    · rw [queue]
      obtain ⟨c', found', touches⟩ := h.touches found
      have haccount := (hb.recorded i c found).account ended unnoticed settled
      refine List.rel_append hkept (.cons ⟨c', found', ?_, ?_⟩ .nil)
      · exact ((hb.recorded i c found).touch touches).noticed.mp (by simp)
      · exact haccount.concat touches.becomes nofun nofun nofun
  once := by
    rw [noticed_append]
    obtain ⟨hs, -⟩ | ⟨i, c, status, rfl, found, ended, unnoticed, -, -⟩ := h.queue
    · simpa [hs] using hb.once
    · have hnot : i ∉ noticed steps := fun hi =>
        unnoticed ((hb.recorded i c found).noticed.mp (mem_noticed.mp hi))
      exact List.nodup_append.mpr ⟨hb.once, by simp [noticed], by
        simpa [noticed] using fun j hj => ne_of_mem_of_not_mem hj hnot⟩

theorem run_booked (h : (ofManifest m).run steps = some l) : Booked steps l :=
  run_induction (P := Booked) ⟨nofun, by simp [ofManifest], .nil, .nil⟩ (fun _ => Booked.move) h

/-! ## Exactly one account -/

/-- Among the events there is exactly one account of each child, and nothing else. -/
def OneForEach (steps : List Step) (l : Launch) (events : List ExitEvent) : Prop :=
  ∃ places : List Nat, places.Perm (List.range l.children.length) ∧
    List.Forall₂ (fun i e => ∃ c, l.children[i]? = some c ∧ Account steps i c e) places events

theorem OneForEach.perm {events others : List ExitEvent} (h : OneForEach steps l events)
    (hp : others.Perm events) : OneForEach steps l others := by
  obtain ⟨places, hplaces, haccounts⟩ := h
  obtain ⟨moved, hmoved, hperm⟩ := List.perm_comp_forall₂ hp haccounts.flip
  exact ⟨moved, hperm.trans hplaces, hmoved.flip⟩

/-- The numbers of the children are those of their accounts. -/
theorem OneForEach.numbers {events : List ExitEvent} (h : OneForEach steps l events) :
    (events.map ExitEvent.pid).Perm (l.children.map Child.pid) := by
  obtain ⟨places, hplaces, haccounts⟩ := h
  have hevents : events.map ExitEvent.pid = places.map fun i =>
      (l.children.map Child.pid).getD i 0 := by
    clear hplaces
    induction haccounts with
    | nil => rfl
    | cons haccount _ ih =>
      obtain ⟨c, found, account⟩ := haccount
      simp [ih, account.pid, found]
  have hchildren : (List.range l.children.length).map (fun i =>
      (l.children.map Child.pid).getD i 0) = l.children.map Child.pid := by
    apply List.ext_getElem
    · simp
    · intro i hi _
      have hlt : i < l.children.length := by simpa using hi
      simp [hlt]
  calc events.map ExitEvent.pid
      = places.map (fun i => (l.children.map Child.pid).getD i 0) := hevents
    List.Perm _ ((List.range l.children.length).map fun i =>
        (l.children.map Child.pid).getD i 0) := hplaces.map _
    _ = l.children.map Child.pid := hchildren

/-- When no more ends will come, every child has been noticed. -/
theorem Booked.noticed_perm (hb : Booked steps l) (h : l.isClosed = true) :
    (noticed steps).Perm (List.range l.children.length) := by
  refine (List.perm_ext_iff_of_nodup hb.once List.nodup_range).mpr fun i => ?_
  rw [mem_noticed, List.mem_range]
  constructor
  · exact fun hi => hb.named _ hi i rfl
  · intro hi
    have found := List.getElem?_eq_getElem hi
    have hd := (isClosed_iff.mp h).2 _ (List.getElem_mem hi)
    exact (hb.recorded i _ found).noticed.mpr hd

/-- When no more ends will come, those that were taken are one account of each child. -/
theorem Booked.oneForEach (hb : Booked steps l) (h : l.isClosed = true) :
    OneForEach steps l l.taken := by
  refine ⟨noticed steps, hb.noticed_perm h, ?_⟩
  have haccounts := hb.accounts
  rw [(isClosed_iff.mp h).1, List.append_nil] at haccounts
  exact haccounts.imp fun i e ⟨c, found, _, account⟩ => ⟨c, found, account⟩

/-- Every end that was noticed is the account of a child, which was noticed. -/
theorem Booked.account (hb : Booked steps l) (he : e ∈ l.taken ++ l.pending) :
    ∃ (i : Nat) (c : Child), l.children[i]? = some c ∧ c.watch = .done ∧ Account steps i c e := by
  obtain ⟨hlen, haccounts⟩ := List.forall₂_iff_get.mp hb.accounts
  obtain ⟨k, hk, rfl⟩ := List.getElem_of_mem he
  obtain ⟨c, found, done, account⟩ := haccounts k (hlen ▸ hk) hk
  exact ⟨_, c, found, done, account⟩

/-! ## Grace periods -/

/-- In the steps there is a moment at which the child at a place, which was asked to stop, is looked
after because its grace period has run out, and at this moment it still runs. -/
def Outlived (m : Manifest) (steps : List Step) (i : Nat) : Prop :=
  ∃ before after l c, steps = before ++ .giveUp i :: after ∧
    (ofManifest m).run before = some l ∧ l.children[i]? = some c ∧
    c.watch = .expired ∧ c.asked = true ∧ c.status = none

/-- A step that changes a child comes at a moment at which it finds the child. -/
theorem exists_change (h : (ofManifest m).run steps = some l) (hs : s ∈ steps)
    (hchild : s.child? = some i) (hnotice : s ≠ .notice i) :
    ∃ before after l₁ c c', steps = before ++ s :: after ∧
      (ofManifest m).run before = some l₁ ∧ l₁.children[i]? = some c ∧ l₁.Changes i c s c' := by
  obtain ⟨before, after, rfl⟩ := List.append_of_mem hs
  obtain ⟨l₁, hbefore, hafter⟩ := run_append.mp h
  obtain ⟨l₂, hmove, -⟩ := run_cons.mp hafter
  cases hmove with
  | @changes j c c' _ found change =>
    obtain rfl : j = i := Option.some.inj (change.child?_eq.symm.trans hchild)
    exact ⟨before, after, l₁, c, c', rfl, hbefore, found, change⟩
  | notices found =>
    obtain rfl := Option.some.inj hchild
    exact absurd rfl hnotice
  | starts | fails | takes | receives | receivesCritical | closes | stops | collects | concludes =>
    cases hchild

/-- A child is given up only while it still runs. -/
theorem giveUp_mem_iff (h : (ofManifest m).run steps = some l) :
    .giveUp i ∈ steps ↔ Outlived m steps i := by
  constructor
  · intro hi
    obtain ⟨before, after, l₁, c, c', rfl, hbefore, found, change⟩ := exists_change h hi rfl nofun
    cases change with
    | givesUp expired running =>
      have hrecorded := (run_booked hbefore).recorded i c found
      have hasked : c.asked = true := by simp [hrecorded.asked, expired]
      exact ⟨before, after, l₁, c, rfl, hbefore, found, expired, hasked, running⟩
  · rintro ⟨before, after, l₁, c, rfl, -⟩
    simp

/-- Two processes, of which one ends by itself and the other has to be killed. -/
def pair : Manifest :=
  ⟨[{ executable := "camera" }, { executable := "driver", critical := true }]⟩

def pairSteps : List Step :=
  [.start (.ok 10), .start (.ok 11), .exit 0 (.exited 3), .notice 0, .take, .stop, .heed 1,
    .expire 1, .giveUp 1, .kill 1, .exit 1 (.signaled 9), .notice 1, .collect, .conclude]

end Launch

end LaunchPlan
