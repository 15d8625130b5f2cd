import LaunchPlan.Proofs.Chains

/-!
# Where failures arise

A failure of a launch arises at one action: in its conditions, in what it declares or starts, or on
the way into a description that it includes. It carries the name of this action. The inclusions
around the description of the action have no part in it.
-/

namespace LaunchPlan

open Computing

variable {σ : Type}

namespace Compose

open Walk

/-- The action that comes next at a moment raises a failure of its own: it fails without a
description that it includes, or it includes one where no more may be nested. -/
inductive Raises (host : Host σ) (env : Environment) (source : Source) :
    Moment σ → Action → LaunchError → Prop
  | alone {nesting : Nat} {action : Action} {rest : Description} {w v : Walk σ} {e : LaunchError} :
      Alone host env source action w (.error e) v →
      Raises host env source ⟨nesting, action :: rest, w⟩ action e
  | tooDeep {i : Inclusion} {rest : Description} {w v : Walk σ} {loaded : Loaded} :
      Enters host env source i w loaded v →
      Raises host env source ⟨0, .inclusion i :: rest, w⟩ (.inclusion i)
        (.bare (.includeTooDeep loaded.key))

variable {host : Host σ} {env : Environment} {source : Source}

/-- A description that fails comes to an action that raises the failure, and which it names. -/
theorem exists_fault {nesting : Nat} {description : Description} {w v : Walk σ} {e : LaunchError}
    (h : (run host env source nesting description).run w = (.error e, v)) :
    ∃ m action raised, Reaches host env source ⟨nesting, description, w⟩ m ∧
      Raises host env source m action raised ∧ e = raised.inAction action.identity := by
  -- The actions of one description are passed one by one; an inclusion passes the failure on.
  induction nesting using Nat.strongRecOn generalizing description w v e with
  | ind nesting ihnesting =>
  induction description generalizing w with
  | nil =>
    rw [run_eq] at h
    cases h
  | cons action rest ihrest =>
    rcases haction : (runAction host env source (nested host env source nesting) action).run w
      with ⟨e' | _, u⟩
    · rw [run_cons_error haction] at h
      cases h
      rcases alone_or_enters host env source action w with
        ⟨result, u', halone⟩ | ⟨i, loaded, entered, rfl, he⟩
      · obtain rfl : result = .error e' := congrArg Prod.fst ((halone _).symm.trans haction)
        exact ⟨_, action, e', .refl, .alone halone, rfl⟩
      rw [runAction_inclusion he] at haction
      cases nesting with
      | zero =>
        cases haction
        exact ⟨_, _, _, .refl, .tooDeep he, rfl⟩
      | succ below =>
        rcases hin : (run host env source below loaded.description).run entered with ⟨result, inner⟩
        rw [nested, hin] at haction
        cases haction
        obtain ⟨m, action, raised, hm, hraised, rfl⟩ :=
          ihnesting below (Nat.lt_succ_self below) hin
        exact ⟨m, action, raised, (Reaches.refl.into he).trans hm, hraised,
          LaunchError.inAction_inAction raised _ _⟩
    · rw [run_cons_ok haction] at h
      obtain ⟨m, action, raised, hm, hraised⟩ := ihrest h
      exact ⟨m, action, raised, (Reaches.refl.next haction).trans hm, hraised⟩

end Compose

namespace Composition

variable {host : Host σ} {env : Environment} {source : Source}

/-- The failure of a launch that fails. -/
def failure? : Except LaunchError Composition → Option LaunchError
  | .error e => some e
  | .ok _ => none

@[simp] theorem failure?_eq_some {outcome : Except LaunchError Composition} {e : LaunchError} :
    failure? outcome = some e ↔ outcome = .error e := by
  cases outcome <;> simp [failure?]

/-- A launch that fails has no description to compose, or comes to an action that raises the
failure. -/
theorem exists_fault {entry : Entry} {overrides : Bindings} {machine : σ} {e : LaunchError}
    (h : (ofEntry host env source entry overrides (.fresh machine)).1 = .error e) :
    entry.find source (host.files machine) = .error e ∨
      ∃ m action raised, Reaches host env source entry overrides machine m ∧
        Compose.Raises host env source m action raised ∧ e = raised.inAction action.identity := by
  rw [ofEntry_eq, show (Session.fresh machine).machine = machine from rfl] at h
  cases hfind : entry.find source (host.files machine) with
  | error e' =>
    rw [hfind] at h
    cases h
    exact .inl rfl
  | ok found =>
    obtain ⟨description, key⟩ := found
    rw [hfind] at h
    simp only [ofDescription_eq] at h
    rcases hrun : (start host source description key overrides (.fresh machine)).finish host env
      source with ⟨e' | _, v⟩ <;> rw [hrun] at h <;> cases h
    obtain ⟨m, action, raised, hm, hraised⟩ := Compose.exists_fault hrun
    exact .inr ⟨m, action, raised, ⟨description, key, hfind, hm⟩, hraised⟩

end Composition

end LaunchPlan
