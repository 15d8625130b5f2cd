import LaunchPlan.Proofs.LaunchSteps

/-!
# The order of starting

The processes of a manifest are started in its order, and each child has the name of its process and
the number that starting it has given. A launch that is stopped before it is complete has met a
process that could not be started.
-/

namespace LaunchPlan

namespace Launch

/-- The number that a step gives to a process that it starts. -/
def Step.number? : Step → Option Nat
  | .start (.ok pid) => some pid
  | _ => none

/-- The processes that a launch has not started, by its stage. -/
inductive Leaves : Stage → List PlannedProcess → Prop
  | starting {rest : List PlannedProcess} : Leaves (.starting rest) rest
  | stopping {failure : Option LaunchCause} : Leaves (.stopping failure) []
  | ended {result : Except LaunchCause StopReport} : Leaves (.over result) []
  | failing {p : PlannedProcess} {rest : List PlannedProcess} {e : IoError} :
    Leaves (.stopping (some (.spawn p.displayName e))) (p :: rest)
  | failed {p : PlannedProcess} {rest : List PlannedProcess} {e : IoError} :
    Leaves (.over (.error (.spawn p.displayName e))) (p :: rest)

/-- The children of a launch are the first processes of the manifest, with the numbers that the
steps have given. -/
structure Follows (m : Manifest) (steps : List Step) (l : Launch) : Prop where
  order : ∃ rest, Leaves l.stage rest ∧
    l.children.map (fun c => (c.name, c.critical)) ++
        rest.map (fun p => (p.displayName, p.critical)) =
      m.processes.map fun p => (p.displayName, p.critical)
  numbers : l.children.map Child.pid = steps.filterMap Step.number?

variable {m : Manifest} {l l' : Launch} {s : Step} {steps : List Step}

/-- A child that is replaced by one with the same name has no part in a list of names. -/
theorem map_setChild {α : Type} {i : Nat} {c c' : Child} (found : l.children[i]? = some c)
    (f : Child → α) (hf : f c' = f c) : (l.setChild i c').children.map f = l.children.map f := by
  have hlt : i < l.children.length := (List.getElem?_eq_some_iff.mp found).1
  apply List.ext_getElem?
  intro j
  rw [children_setChild, List.getElem?_map, List.getElem?_map]
  by_cases hj : i = j
  · subst hj
    rw [List.getElem?_set_self hlt, found]
    simp [hf]
  · rw [List.getElem?_set_ne hj]

/-- A step starts the next process, or leaves the children who they are. -/
theorem Moves.map_children (h : l.Moves s l') :
    (s.number? = none ∧ ∀ {α : Type} (f : Child → α),
        (∀ {c d : Child}, Becomes c d → f d = f c) → l'.children.map f = l.children.map f) ∨
      ∃ p rest pid, l.stage = .starting (p :: rest) ∧ l'.stage = .starting rest ∧
        s.number? = some pid ∧ l'.children =
          l.children ++ [{ name := p.displayName, pid, critical := p.critical }] := by
  cases h with
  | @starts p rest pid stage free => exact .inr ⟨p, rest, pid, stage, rfl, rfl, rfl⟩
  | changes found change =>
    refine .inl ⟨?_, fun f hf => map_setChild found f (hf change.becomes)⟩
    cases change <;> rfl
  | notices found ended unnoticed =>
    exact .inl ⟨rfl, fun f hf => map_setChild found f (hf (becomes_done _))⟩
  | fails | takes | receives | receivesCritical | closes | stops | collects | concludes =>
    exact .inl ⟨rfl, fun f _ => rfl⟩

/-- Unless it starts a process, a step leaves unstarted what was unstarted. -/
theorem Moves.leaves {rest : List PlannedProcess} (h : l.Moves s l') (hs : s.number? = none)
    (hl : Leaves l.stage rest) : Leaves l'.stage rest := by
  cases h with
  | starts => cases hs
  | fails stage =>
    rw [stage] at hl
    cases hl
    exact .failing
  | changes | notices | takes | receives | collects => exact hl
  | receivesCritical stage | closes stage | stops stage =>
    rw [stage] at hl
    cases hl
    exact .stopping
  | concludes stage closed =>
    rw [stage] at hl
    cases hl with
    | stopping => exact .ended
    | failing => exact .failed

theorem Follows.move (hf : Follows m steps l) (h : l.Moves s l') :
    Follows m (steps ++ [s]) l' := by
  obtain ⟨rest, hrest, order⟩ := hf.order
  obtain ⟨hs, kept⟩ | ⟨p, rest', pid, stage, stage', hs, children⟩ := h.map_children
  · constructor
    · refine ⟨rest, h.leaves hs hrest, ?_⟩
      rw [kept _ fun hcd => by rw [hcd.name, hcd.critical]]
      exact order
    · rw [kept _ Becomes.pid, hf.numbers]
      simp [hs]
  · rw [stage] at hrest
    cases hrest
    constructor
    · refine ⟨rest', stage' ▸ .starting, ?_⟩
      rw [children, ← order]
      simp
    · rw [children, List.map_append, hf.numbers]
      simp [hs]

theorem run_follows (h : (ofManifest m).run steps = some l) : Follows m steps l :=
  run_induction (P := Follows m) ⟨⟨m.processes, .starting, by simp [ofManifest]⟩, rfl⟩
    (fun _ => Follows.move) h

/-- When nothing is left unstarted, the children are the processes of the manifest. -/
theorem Follows.all_started (h : Follows m steps l)
    (hl : ∀ rest, Leaves l.stage rest → rest = []) :
    l.children.map (fun c => (c.name, c.critical)) =
      m.processes.map fun p => (p.displayName, p.critical) := by
  obtain ⟨rest, hrest, order⟩ := h.order
  obtain rfl := hl rest hrest
  simpa using order

end Launch

end LaunchPlan
