import LaunchPlan.Proofs.ExitAccounts

/-!
# Requested ends

An end is reported as requested if its child was asked to stop before somebody noticed the end. Who
watches a child looks for its end and for the request in no set order, so that a child which ended
by itself before the request may still be asked, and its end is then reported as requested. An end
that was noticed before the request never is.
-/

namespace LaunchPlan

namespace Launch

variable {m : Manifest} {l l₁ l₂ : Launch} {steps before first : List Step} {i : Nat}
  {c d : Child} {e : ExitEvent}

/-! ## Moments of a run -/

/-- What the earlier of two moments of a run has led to becomes what the later one has led to. -/
theorem earlier_proceeds (hp : first <+: before) (h₁ : (ofManifest m).run first = some l₁)
    (h₂ : (ofManifest m).run before = some l₂) : Proceeds l₁ l₂ := by
  obtain ⟨more, rfl⟩ := hp
  exact run_proceeds (run_of_append h₂ h₁)

/-- A moment at which the stop is not requested comes before every moment at which it is. -/
theorem earlier_of_requested (hf : first <+: steps) (hb : before <+: steps)
    (h₁ : (ofManifest m).run first = some l₁) (h₂ : (ofManifest m).run before = some l₂)
    (free : l₁.stopRequested = false) (requested : l₂.stopRequested = true) :
    first <+: before := by
  obtain hp | hp := List.prefix_or_prefix_of_prefix hf hb
  · exact hp
  · have hstop := (earlier_proceeds hp h₂ h₁).stopRequested requested
    exact absurd hstop (by simp [free])

/-- The child at a place, as it was at a moment at which the launch was not yet to be stopped. -/
def BeforeStop (m : Manifest) (steps : List Step) (i : Nat) (c : Child) : Prop :=
  ∃ before l, before <+: steps ∧ (ofManifest m).run before = some l ∧
    l.stopRequested = false ∧ l.children[i]? = some c

/-- The child at a place, as it was when it was asked to stop because the launch was to be stopped;
its end, if it had one, had not been noticed. -/
def AskedAs (m : Manifest) (steps : List Step) (i : Nat) (c : Child) : Prop :=
  ∃ before l, before ++ [.heed i] <+: steps ∧ (ofManifest m).run before = some l ∧
    l.stopRequested = true ∧ l.children[i]? = some c ∧ c.watch = .waiting

/-- A child is asked only because the launch is to be stopped, and while it is waited for. -/
theorem heed_mem_iff (h : (ofManifest m).run steps = some l) :
    .heed i ∈ steps ↔ ∃ c, AskedAs m steps i c := by
  constructor
  · intro hi
    obtain ⟨before, after, l₁, c, c', rfl, hbefore, found, change⟩ := exists_change h hi rfl nofun
    cases change with
    | heeds requested waiting =>
      exact ⟨c, before, l₁, ⟨after, by simp⟩, hbefore, requested, found, waiting⟩
  · rintro ⟨c, before, l₁, hprefix, -⟩
    exact hprefix.subset (by simp)

/-- What a child was before the stop was requested becomes what it was when it was asked. -/
theorem BeforeStop.becomes (hc : BeforeStop m steps i c) (hd : AskedAs m steps i d) :
    Becomes c d := by
  obtain ⟨first, l₁, hfirst, hrun₁, free, found⟩ := hc
  obtain ⟨before, l₂, hasked, hrun₂, requested, found', -⟩ := hd
  have hbefore : before <+: steps := (List.prefix_append before _).trans hasked
  have hprefix := earlier_of_requested hfirst hbefore hrun₁ hrun₂ free requested
  obtain ⟨c', hc', becomes⟩ := (earlier_proceeds hprefix hrun₁ hrun₂).children i c found
  obtain rfl : c' = d := Option.some.inj (hc'.symm.trans found')
  exact becomes

/-- Of a child that is asked later nobody has noticed an end before the stop is requested. -/
theorem BeforeStop.waiting (hc : BeforeStop m steps i c) (hd : AskedAs m steps i d) :
    c.watch = .waiting := by
  have becomes := hc.becomes hd
  obtain ⟨first, l₁, -, hrun₁, -, found⟩ := hc
  obtain ⟨before, l₂, -, hrun₂, -, found', waiting⟩ := hd
  have hunasked : d.asked ≠ true := by
    simp [((run_booked hrun₂).recorded i d found').asked, waiting]
  have unnoticed : c.watch ≠ .done := fun hdone => by simp [becomes.done hdone] at waiting
  have hrecorded := (run_booked hrun₁).recorded i c found
  by_contra hwatch
  exact hunasked (becomes.asked ((hrecorded.asked unnoticed).mpr hwatch))

/-! ## What is reported -/

/-- An end is reported as requested exactly if its child was asked to stop before the end was
noticed. At every moment before the stop was requested the end had not been noticed, and if the
child still ran when it was asked, it had not even come. -/
theorem requested_accounted (h : (ofManifest m).run steps = some l)
    (he : e ∈ l.taken ++ l.pending) :
    ∃ (i : Nat) (c : Child), l.children[i]? = some c ∧ Account steps i c e ∧
      (e.requested = true ↔ ∃ asked, AskedAs m steps i asked) ∧
      ∀ asked earlier, AskedAs m steps i asked → BeforeStop m steps i earlier →
        earlier.watch = .waiting ∧ (asked.status = none → earlier.status = none) := by
  obtain ⟨i, c, found, -, account⟩ := (run_booked h).account he
  refine ⟨i, c, found, account, account.requested.trans (heed_mem_iff h), ?_⟩
  intro asked earlier hasked hearlier
  refine ⟨hearlier.waiting hasked, fun running => ?_⟩
  by_contra hended
  obtain ⟨status, hstatus⟩ := Option.ne_none_iff_exists'.mp hended
  have hkept := (hearlier.becomes hasked).ended status hstatus
  simp [running] at hkept

theorem pair_requested : ∃ l e i, (ofManifest pair).run pairSteps = some l ∧
    e ∈ l.taken ++ l.pending ∧ e.requested = true ∧
    ∃ asked, AskedAs pair pairSteps i asked ∧
      ∀ earlier, BeforeStop pair pairSteps i earlier → earlier.watch = .waiting := by
  have hrun : (ofManifest pair).run pairSteps = some _ := rfl
  obtain ⟨i, c, -, -, hasked, hwaiting⟩ :=
    requested_accounted hrun (List.mem_cons_of_mem _ List.mem_cons_self)
  obtain ⟨asked, hi⟩ := hasked.mp rfl
  exact ⟨_, _, i, hrun, List.mem_cons_of_mem _ List.mem_cons_self, rfl, asked, hi,
    fun earlier hearlier => (hwaiting asked earlier hi hearlier).1⟩

/-- One process, which ends by itself, is asked to stop after that, and is noticed only then. -/
def lone : Manifest :=
  ⟨[{ executable := "camera" }]⟩

def loneCrash : List Step :=
  [.start (.ok 10), .exit 0 (.exited 3)]

def loneStop : List Step :=
  [.stop, .heed 0, .notice 0, .collect, .conclude]

theorem crash_requested : ¬ ∀ (m : Manifest) (steps : List Step) (l : Launch),
    (ofManifest m).run steps = some l → ∀ e ∈ l.taken ++ l.pending, e.requested = true →
      ∃ (i : Nat) (c : Child), l.children[i]? = some c ∧ Account steps i c e ∧
        ∀ earlier, BeforeStop m steps i earlier → earlier.status = none := by
  intro hclaim
  have hrun : (ofManifest lone).run (loneCrash ++ loneStop) = some _ := rfl
  obtain ⟨i, c, found, -, hrunning⟩ := hclaim lone _ _ hrun _ List.mem_cons_self rfl
  have hi : i = 0 := by
    have hlt := (List.getElem?_eq_some_iff.mp found).1
    exact Nat.lt_one_iff.mp hlt
  subst hi
  have hcrash : (ofManifest lone).run loneCrash = some _ := rfl
  have hended := hrunning _ ⟨loneCrash, _, List.prefix_append _ _, hcrash, rfl, rfl⟩
  cases hended

end Launch

end LaunchPlan
