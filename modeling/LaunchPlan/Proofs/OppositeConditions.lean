import LaunchPlan.Proofs.Moments

/-!
# Opposite conditions

A condition that has been decided is decided again in the same way for as long as its scope lasts:
the values it uses stay, and so do the outputs of its commands. Of two actions of a description
with opposite conditions exactly one is therefore processed.
-/

namespace LaunchPlan

open Computing

variable {σ : Type} {host : Host σ} {env : Environment} {source : Source}

namespace Condition

/-- Whether a condition holds, by what its expression says. -/
def verdict : Condition → Bool → Bool
  | ifTrue _, truth => truth
  | ifFalse _, truth => !truth

theorem holds_eq (t : ArgumentTable) (c : Condition) :
    c.holds host env t = c.verdict <$> truth host env t c.expression := by
  cases c with
  | ifTrue expression => exact (id_map _).symm
  | ifFalse expression => rfl

theorem allHold_singleton (t : ArgumentTable) (c : Condition) :
    allHold host env t [c] = c.verdict <$> truth host env t c.expression := by
  rw [← holds_eq, ← bind_pure (c.holds host env t)]
  refine congrArg (c.holds host env t >>= ·) (funext fun holds => ?_)
  cases holds <;> rfl

end Condition

namespace Compose

/-- The conditions of an action hold, and it does what it does from there. -/
def Processed (host : Host σ) (env : Environment) (source : Source) (nesting : Nat)
    (action : Action) (w v : Walk σ) : Prop :=
  ∃ u, (decides host env action).run w = (.ok true, u) ∧
    (act host env source (nested host env source nesting) action).run u = (.ok (), v)

/-- The conditions of an action do not all hold, and it does nothing. -/
def Skipped (host : Host σ) (env : Environment) (action : Action) (w v : Walk σ) : Prop :=
  (decides host env action).run w = (.ok false, v)

theorem Skipped.eq {action : Action} {w v : Walk σ} (h : Skipped host env action w v) :
    v = { w with session := v.session } :=
  decides_ok h

/-- An action that succeeds is processed or skipped. -/
theorem runAction_ok {nesting : Nat} {action : Action} {w v : Walk σ}
    (h : (runAction host env source (nested host env source nesting) action).run w = (.ok (), v)) :
    Processed host env source nesting action w v ∨ Skipped host env action w v := by
  rw [runAction_eq] at h
  obtain ⟨holds, u, hu, h⟩ := ok_of_bind h
  cases holds with
  | true => exact .inl ⟨u, hu, h⟩
  | false =>
    cases h
    exact .inr hu

/-- A single condition is decided by what its expression says. -/
theorem run_decides {action : Action} {c : Condition} (hc : action.conditions = [c]) (w : Walk σ) :
    (decides host env action).run w =
      let (truth, session) := (Condition.truth host env w.arguments c.expression).run w.session
      ((truth.map c.verdict).mapError .ofResolution, { w with session }) := by
  rw [decides, hc, run_resolving, Condition.allHold_singleton, run_map]
  rfl

theorem decides_ok_iff {action : Action} {c : Condition} (hc : action.conditions = [c])
    {w v : Walk σ} {holds : Bool} :
    (decides host env action).run w = (.ok holds, v) ↔
      ∃ truth session, holds = c.verdict truth ∧ v = { w with session } ∧
        (Condition.truth host env w.arguments c.expression).run w.session = (.ok truth, session) := by
  rw [run_decides hc]
  rcases (Condition.truth host env w.arguments c.expression).run w.session with ⟨e | truth, session⟩
  · constructor
    · intro h
      cases h
    · rintro ⟨_, _, -, -, h⟩
      cases h
  · constructor
    · intro h
      cases h
      exact ⟨truth, session, rfl, rfl, rfl⟩
    · rintro ⟨_, _, rfl, rfl, h⟩
      cases h
      rfl

/-- What the expression of a condition has said it says again later in the scope. -/
theorem decides_again (hfiles : host.KeepsFiles env) {a b : Action} {c d : Condition}
    (ha : a.conditions = [c]) (hb : b.conditions = [d]) (hcd : c.expression = d.expression)
    {w u v : Walk σ} {holds : Bool} (h : (decides host env a).run w = (.ok holds, u))
    (hlater : Walk.Frame (Session.Later host) u v) (hkeeping : v.session.outputs.isSome = true) :
    ∃ truth, holds = c.verdict truth ∧ (decides host env b).run v = (.ok (d.verdict truth), v) := by
  obtain ⟨truth, session, rfl, rfl, htruth⟩ := (decides_ok_iff ha).1 h
  have hcovers : Session.Covers host host session v.session :=
    ⟨hlater.session.keeping ▸ hkeeping, hlater.session.kept, hlater.session.files.symm⟩
  have hagain := Condition.truth_replays hfiles hlater.arguments.lookup c.expression _ _ _ _ htruth
    hcovers
  exact ⟨truth, rfl, (decides_ok_iff hb).2 ⟨truth, v.session, rfl, rfl, hcd ▸ hagain⟩⟩

/-- What is done by an action that has been decided, and by the actions after it, comes later. -/
theorem later_of_decides (hfiles : host.KeepsFiles env) {nesting : Nat} {action : Action}
    {between : Description} {w u v v' : Walk σ} {holds : Bool}
    (hu : (decides host env action).run w = (.ok holds, u))
    (hv : (runAction host env source (nested host env source nesting) action).run w = (.ok (), v))
    (hv' : (run host env source nesting between).run v = (.ok (), v')) :
    Walk.Frame (Session.Later host) u v' := by
  have hk := Host.output_later hfiles
  rw [runAction_eq, run_bind_ok hu] at hv
  have huv : Walk.Frame (Session.Later host) u v := by
    cases holds with
    | true => exact (act_keeps hk (nested_keeps hk nesting) action).of_run hv
    | false =>
      cases hv
      exact refl_of _ u
  exact trans_of _ huv ((run_keeps hk nesting between).of_run hv')

/-- In a launch that is composed, exactly one of two actions of a description with opposite conditions
is processed, each time that the description is composed. What commands print may differ from run to
run; only files must stay. -/
theorem opposite_exactly_one (hfiles : host.KeepsFiles env) {entry : Entry} {overrides : Bindings}
    {machine : σ} {composition : Composition}
    (hok : (Composition.ofEntry host env source entry overrides (.fresh machine)).1 =
      .ok composition)
    {nesting : Nat} {first between last : Description} {a b : Action} {w : Walk σ}
    (hm : Composition.Reaches host env source entry overrides machine
      ⟨nesting, first ++ a :: between ++ b :: last, w⟩)
    {expression : List Substitution}
    (hab : a.conditions = [.ifTrue expression] ∧ b.conditions = [.ifFalse expression] ∨
      a.conditions = [.ifFalse expression] ∧ b.conditions = [.ifTrue expression]) :
    ∃ wa va wb vb, (run host env source nesting first).run w = (.ok (), wa) ∧
      (runAction host env source (nested host env source nesting) a).run wa = (.ok (), va) ∧
      (run host env source nesting between).run va = (.ok (), wb) ∧
      (runAction host env source (nested host env source nesting) b).run wb = (.ok (), vb) ∧
      (Processed host env source nesting a wa va ∧ Skipped host env b wb vb ∨
        Skipped host env a wa va ∧ Processed host env source nesting b wb vb) := by
  rcases hfinish : (run host env source nesting (first ++ a :: between ++ b :: last)).run w
    with ⟨result, v⟩
  obtain rfl : result = .ok () := (congrArg Prod.fst hfinish).symm.trans (hm.finish_ok hok)
  obtain ⟨wb, vb, hbefore, hb, -⟩ := ok_of_run hfinish
  obtain ⟨wa, va, hfirst, ha, hbetween⟩ := ok_of_run hbefore
  refine ⟨wa, va, wb, vb, hfirst, ha, hbetween, hb, ?_⟩
  have hkeeping : wb.session.outputs.isSome = true := by
    obtain ⟨_, _, -, hm⟩ := hm
    exact ((hm.after hbefore).session (Host.output_later hfiles)).keeping
  -- The second action is decided from the walk that the first one has led to.
  have hopposite : ∀ {c d : Condition}, a.conditions = [c] → b.conditions = [d] →
      c.expression = d.expression → (∀ truth, d.verdict truth = !c.verdict truth) →
      Processed host env source nesting a wa va ∧ Skipped host env b wb vb ∨
        Skipped host env a wa va ∧ Processed host env source nesting b wb vb := by
    intro c d hc hd hcd hverdict
    have hagain : ∀ {ra rb : Bool} {u u' : Walk σ},
        (decides host env a).run wa = (.ok ra, u) → (decides host env b).run wb = (.ok rb, u') →
          rb = !ra := by
      intro ra rb u u' hu hu'
      obtain ⟨truth, rfl, htrue⟩ := decides_again hfiles hc hd hcd hu
        (later_of_decides hfiles hu ha hbetween) hkeeping
      rw [htrue] at hu'
      cases hu'
      exact hverdict truth
    rcases runAction_ok ha with hpa | hsa <;> rcases runAction_ok hb with hpb | hsb
    · obtain ⟨_, hua, -⟩ := hpa
      obtain ⟨_, hub, -⟩ := hpb
      cases hagain hua hub
    · exact .inl ⟨hpa, hsb⟩
    · exact .inr ⟨hsa, hpb⟩
    · cases hagain hsa hsb
  rcases hab with ⟨hc, hd⟩ | ⟨hc, hd⟩
  · exact hopposite hc hd rfl fun truth => rfl
  · exact hopposite hc hd rfl fun truth => (Bool.not_not truth).symm

/-- A machine on which every command prints yes at first, and no from then on. -/
def fickle : Host Nat where
  run _ _ runs := (.ok (if runs = 0 then "yes" else "no"), runs + 1)
  files _ := {}

/-- A process for either outcome of a command, with a declaration between them. -/
def eitherDriver (c : List Substitution → Condition) (executable : String) : Action :=
  .process { executable := [.text executable], conditions := [c [.command [.text "detect"]]] }

def driverDefault : Action :=
  .argument { name := "driver", default := some [.command [.text "which"]] }

def driverDescription : Description :=
  [eitherDriver .ifTrue "camera", driverDefault, eitherDriver .ifFalse "replay"]

/-- Before the first driver. -/
def driverWalk : Walk Nat :=
  (Composition.start fickle (.memory []) driverDescription none [] (.fresh 0)).walk

theorem drivers_exactly_one :
    ∃ va wb vb, (run fickle {} (.memory []) 0 [driverDefault]).run va = (.ok (), wb) ∧
      (Processed fickle {} (.memory []) 0 (eitherDriver .ifTrue "camera") driverWalk va ∧
          Skipped fickle {} (eitherDriver .ifFalse "replay") wb vb ∨
        Skipped fickle {} (eitherDriver .ifTrue "camera") driverWalk va ∧
          Processed fickle {} (.memory []) 0 (eitherDriver .ifFalse "replay") wb vb) := by
  have hfiles : fickle.KeepsFiles {} := fun _ _ => rfl
  have hok : (Composition.ofEntry fickle {} (.memory []) (.described driverDescription) []
      (.fresh 0)).1 = .ok _ := rfl
  have hm : Composition.Reaches fickle {} (.memory []) (.described driverDescription) [] 0
      ⟨0, [] ++ eitherDriver .ifTrue "camera" :: [driverDefault] ++
        eitherDriver .ifFalse "replay" :: [], driverWalk⟩ := ⟨_, _, rfl, .refl⟩
  obtain ⟨wa, va, wb, vb, hwa, -, hwb, -, h⟩ :=
    opposite_exactly_one hfiles hok hm (.inl ⟨rfl, rfl⟩)
  obtain rfl : driverWalk = wa := congrArg Prod.snd hwa
  exact ⟨va, wb, vb, hwb, h⟩

end Compose

end LaunchPlan
