import LaunchPlan.Proofs.Chains
import LaunchPlan.Proofs.Filling

/-!
# What a scope keeps

Whether it succeeds or fails, an action changes the arguments of its scope by one declaration at
most. An included description works in a scope of its own, of which nothing is left. A value that is
seen in a scope is therefore seen until its description ends.
-/

namespace LaunchPlan

open Computing

variable {σ : Type}

/-- The table `u` is what an action can make of `t`: the argument that it declares may have come to
the end of the declarations of the scope. -/
def Action.Appends (action : Action) (t u : ArgumentTable) : Prop :=
  match action with
  | .argument a => u = t ∨ ∃ default, u = t.push
      { name := a.name, default, description := a.description, choices := a.choices }
  | .process _ => u = t
  | .inclusion _ => u = t

theorem Action.Appends.refl (action : Action) (t : ArgumentTable) : action.Appends t t := by
  cases action with
  | argument a => exact .inl rfl
  | process p => rfl
  | inclusion i => rfl

namespace Walk

/-- The walk `w` has the arguments of `v`. -/
def SameArguments (v w : Walk σ) : Prop := w.arguments = v.arguments

instance : IsPreorder (Walk σ) SameArguments where
  refl _ := rfl
  trans _ _ _ h k := k.trans h

theorem Resolved.sameArguments {S : Session σ → Session σ → Prop} (v w : Walk σ)
    (h : Resolved S v w) : SameArguments v w := by
  rw [SameArguments, h.rest]

end Walk

namespace Compose

open Walk

variable {host : Host σ} {env : Environment} {source : Source}

theorem decides_same (action : Action) : Keeps SameArguments (decides host env action) :=
  (decides_keeps (host.output_led env) action).mono Resolved.sameArguments

/-- Nothing is left of the scope of an included description. -/
theorem within_same {α : Type} {key : String} {body : Composing σ α}
    (h : Keeps (Inner (Session.Led host env)) body) : Keeps SameArguments (within key body) := by
  intro w
  rw [run_within, SameArguments, (h (w.entered key)).left]

theorem process_same (p : ProcessTemplate) :
    Keeps SameArguments (resolveProcess host env p >>= addProcess) :=
  ((resolveProcess_keeps (host.output_led env) p).mono Resolved.sameArguments).bind
    fun _ _ => rfl

theorem inclusion_same (nesting : Nat) (i : Inclusion) :
    Keeps SameArguments
      (act host env source (nested host env source nesting) (.inclusion i)) := by
  have hled := host.output_led env
  refine ((loadInclusion_keeps hled i).mono Resolved.sameArguments).bind fun loaded => ?_
  have hbody : Keeps (Inner (Session.Led host env)) (i.overrides.forM (setOverride host env) >>=
      fun _ => nested host env source nesting loaded) :=
    (Keeps.forM fun b _ => setOverride_keeps hled b).bind fun _ =>
      (nested_keeps hled nesting loaded).mono fun _ _ => Frame.inner
  exact within_same hbody

/-- A declaration comes after those of the scope, or not at all. -/
theorem declare_appends (a : ArgumentAction) (w : Walk σ) :
    (Action.argument a).Appends w.arguments ((declare host env a).run w).2.arguments := by
  rw [declare_eq, run_bind]
  have hsame := (resolveText?_keeps (host.output_led env) a.default).mono Resolved.sameArguments w
  rcases hdefault : (resolveText? host env a.default).run w with ⟨e | default, u⟩ <;>
    rw [hdefault] at hsame
  · exact .inl hsame
  · change (Action.argument a).Appends w.arguments
      (u.arguments.declare (a.declaration default)).2
    rw [show u.arguments = w.arguments from hsame, ArgumentTable.declare]
    split
    · exact .inl rfl
    · exact .inr ⟨default, rfl⟩

theorem act_appends (nesting : Nat) (action : Action) (w : Walk σ) :
    action.Appends w.arguments
      ((act host env source (nested host env source nesting) action).run w).2.arguments := by
  cases action with
  | argument a => exact declare_appends a w
  | process p => exact process_same p w
  | inclusion i => exact inclusion_same nesting i w

theorem runAction_appends (nesting : Nat) (action : Action) (w : Walk σ) :
    action.Appends w.arguments
      ((runAction host env source (nested host env source nesting) action).run w).2.arguments := by
  rw [runAction_eq, run_bind]
  have hsame : SameArguments w ((decides host env action).run w).2 := decides_same action w
  rcases hholds : (decides host env action).run w with ⟨e | holds, u⟩ <;> rw [hholds] at hsame
  · rw [show u.arguments = w.arguments from hsame]
    exact .refl action w.arguments
  · rw [← show u.arguments = w.arguments from hsame]
    cases holds with
    | false => exact .refl action u.arguments
    | true => exact act_appends nesting action u

/-- Whether an action succeeds or fails, the chain of descriptions is what it was, processes have
only been added at the end, and of the arguments no more has changed than that the one it declares
may have come to the end of the current scope. After an inclusion they are what they were. -/
theorem action_only_appends (host : Host σ) (env : Environment) (source : Source) (nesting : Nat)
    (action : Action) (w : Walk σ) :
    let v := ((runAction host env source (nested host env source nesting) action).run w).2
    v.chain = w.chain ∧ w.processes <+: v.processes ∧ action.Appends w.arguments v.arguments := by
  intro v
  have hframe : Walk.Frame (Session.Led host env) w v := frame_of_runAction rfl
  exact ⟨hframe.chain, hframe.processes, runAction_appends nesting action w⟩

/-- A value that a scope sees stays as long as its description is composed, whatever is declared and
included and however that ends. The actions after it do what they do with the value written in place
of the name. -/
theorem value_stays {nesting : Nat} {between : Description} {w v : Walk σ}
    {result : Except LaunchError Unit} {x value : String}
    (hx : w.arguments.lookup x = some value)
    (h : (run host env source nesting between).run w = (result, v)) :
    v.arguments.lookup x = some value ∧
      ∀ nested action, (runAction host env source nested (action.fill x value)).run v =
        (runAction host env source nested action).run v := by
  have hframe : Walk.Frame (Session.Led host env) w v :=
    (run_keeps (host.output_led env) nesting between).of_run h
  have hv : v.arguments.lookup x = some value := hframe.arguments.lookup hx
  exact ⟨hv, fun nested action => runAction_fill nested action hv⟩

/-- Declares the site, and includes a description that has another one. -/
def siteActions : Description :=
  [.argument { name := "site", default := some [.text "lab"] },
    .inclusion { locator := [.text "camera"], overrides := [("site", [.text "roof"])] }]

def siteDescriptions : List (String × Description) :=
  [("camera", [.argument { name := "site", default := some [.text "cellar"] },
    .process { executable := [.text "driver"], arguments := [[.argument "site"]] }])]

/-- A walk to which the site has been given. -/
def siteWalk : Walk Unit where
  arguments := .ofOverrides [("site", "hall")]
  session := .fresh ()

/-- A process that is told the site. -/
def siteViewer (site : Substitution) : Action :=
  .process { executable := [.text "viewer"], arguments := [[site]] }

theorem site_stays :
    ∃ v, (run Host.echo {} (.memory siteDescriptions) 1 siteActions).run siteWalk = (.ok (), v) ∧
      v.arguments.lookup "site" = some "hall" ∧
      ∀ nested,
        (runAction Host.echo {} (.memory siteDescriptions) nested (siteViewer (.text "hall"))).run v =
          (runAction Host.echo {} (.memory siteDescriptions) nested
            (siteViewer (.argument "site"))).run v := by
  have hok : ((run Host.echo {} (.memory siteDescriptions) 1 siteActions).run siteWalk).1 =
      .ok () := by decide +kernel
  rcases hrun : (run Host.echo {} (.memory siteDescriptions) 1 siteActions).run siteWalk
    with ⟨result, v⟩
  rw [hrun] at hok
  obtain rfl : result = .ok () := hok
  have hsite : siteWalk.arguments.lookup "site" = some "hall" := by decide
  obtain ⟨hv, hfilled⟩ := value_stays hsite hrun
  exact ⟨v, rfl, hv, fun nested => hfilled nested (siteViewer (.argument "site"))⟩

end Compose

end LaunchPlan
