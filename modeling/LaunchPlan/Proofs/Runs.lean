import Mathlib.Data.List.Induction
import Mathlib.Order.Defs.Unbundled

/-!
# Runs

A run is a list of steps, each of which is possible or not. It goes on from where its first steps have
led, and what every step preserves holds of it.
-/

namespace LaunchPlan

variable {σ α : Type} {step : σ → α → Option σ} {start s s' : σ} {steps more : List α}

theorem run_append_iff : (steps ++ more).foldlM step start = some s' ↔
    ∃ s, steps.foldlM step start = some s ∧ more.foldlM step s = some s' := by
  simp only [List.foldlM_append, Option.bind_eq_bind, Option.bind_eq_some_iff]

theorem run_concat_iff {a : α} : (steps ++ [a]).foldlM step start = some s' ↔
    ∃ s, steps.foldlM step start = some s ∧ step s a = some s' := by
  rw [run_append_iff]
  simp

/-- What holds at first, and is kept by every step, holds of every run. -/
theorem run_invariant {P : List α → σ → Prop} (first : P [] start)
    (next : ∀ {steps s a s'}, steps.foldlM step start = some s → P steps s → step s a = some s' →
      P (steps ++ [a]) s') :
    ∀ {steps s}, steps.foldlM step start = some s → P steps s := by
  intro steps
  induction steps using List.reverseRecOn with
  | nil =>
    intro s h
    cases h
    exact first
  | append_singleton steps a ih =>
    intro s' h
    obtain ⟨s, hrun, hstep⟩ := run_concat_iff.mp h
    exact next hrun (ih hrun) hstep

/-- A preorder that every step respects is respected by every run. -/
theorem run_preorder {R : σ → σ → Prop} [IsPreorder σ R]
    (next : ∀ {s a s'}, step s a = some s' → R s s') (h : steps.foldlM step start = some s) :
    R start s :=
  run_invariant (P := fun _ s => R start s) (refl start)
    (fun _ hs hstep => IsTrans.trans _ _ _ hs (next hstep)) h

/-! ## Moments -/

/-- After some of the first steps of a run, the state is this one. -/
structure Passes (step : σ → α → Option σ) (start : σ) (steps before : List α) (s : σ) : Prop where
  first : before <+: steps
  run : before.foldlM step start = some s

theorem Passes.last (h : steps.foldlM step start = some s) : Passes step start steps steps s :=
  ⟨List.prefix_rfl, h⟩

theorem Passes.append {before : List α} (h : Passes step start steps before s) :
    Passes step start (steps ++ more) before s :=
  ⟨h.first.trans (List.prefix_append _ _), h.run⟩

/-- What a run passes later is reached from what it has passed before. -/
theorem Passes.goes_on {before after : List α} (h : Passes step start steps before s)
    (h' : Passes step start steps after s') (hle : before <+: after) :
    ∃ between : List α, between.foldlM step s = some s' := by
  obtain ⟨between, rfl⟩ := hle
  obtain ⟨s₁, hs₁, hbetween⟩ := run_append_iff.mp h'.run
  obtain rfl : s₁ = s := Option.some.inj (hs₁.symm.trans h.run)
  exact ⟨between, hbetween⟩

end LaunchPlan
