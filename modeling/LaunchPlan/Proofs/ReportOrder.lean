import LaunchPlan.Proofs.ExitAccounts

/-!
# The order of the report

The report has its ends in the order in which the numbers of their children were first given. A number
is given again only when the end of the child that had it was noticed, so children with one number are
reported in the order of starting. With numbers that are given once, this is the order of starting of
all children; a number that is given again brings the later child forward to the earlier one.
-/

namespace LaunchPlan

/-! ## Sorting is stable -/

namespace Launch

variable {m : Manifest} {l l' : Launch} {s : Step} {steps : List Step} {i j : Nat} {c d : Child}

/-! ## Numbers given again -/

/-- A process is started with a number that no other child holds. -/
theorem Moves.free {pid : Nat} (h : l.Moves (.start (.ok pid)) l') :
    ∀ c ∈ l.children, c.holds pid = false := by
  cases h with
  | starts stage free => exact free
  | changes found change => cases change

/-- The number of the child at a place. -/
def number? (l : Launch) (i : Nat) : Option Nat :=
  l.children[i]?.map Child.pid

/-- The place of the first child that has the number of the child at a place. -/
def first (l : Launch) (i : Nat) : Nat :=
  l.children.findIdx fun c => l.number? i = some c.pid

/-- The event is the account of the child at the place. -/
def ExitOf (steps : List Step) (l : Launch) (i : Nat) (e : ExitEvent) : Prop :=
  ∃ c, l.children[i]? = some c ∧ Account steps i c e

/-- The ends are those of the children in the order of starting. -/
def InOrderOfStarting (steps : List Step) (l : Launch) (report : StopReport) : Prop :=
  List.Forall₂ (ExitOf steps l) (List.range l.children.length) report.exits

theorem InOrderOfStarting.numbers {report : StopReport} (h : InOrderOfStarting steps l report) :
    report.exits.map ExitEvent.pid = l.children.map Child.pid := by
  obtain ⟨hlength, hexits⟩ := List.forall₂_iff_get.mp h
  refine List.ext_getElem (by simpa using hlength.symm) fun k hk hk' => ?_
  simp only [List.length_map] at hk hk'
  obtain ⟨c, found, account⟩ := hexits k (by simpa using hk') hk
  obtain ⟨_, hc⟩ := List.getElem?_eq_some_iff.mp found
  simp only [List.get_eq_getElem, List.getElem_range] at hc account
  rw [List.getElem_map, List.getElem_map, account.pid, hc]

end Launch

end LaunchPlan
