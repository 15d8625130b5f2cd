import LaunchPlan.Proofs.InclusionAlone

/-!
# Overrides as defaults

Overriding an argument that a description declares first comes to the same as editing its default.
Further in, a scope asks the scopes around it before its own defaults, and these scopes do not tell
an override of the outermost one from a default there.
-/

namespace LaunchPlan

open Computing

/-- The argument with a text as its default. -/
def ArgumentAction.withDefault (a : ArgumentAction) (value : String) : ArgumentAction :=
  { a with default := some [.text value] }

namespace ArgumentTable

section

variable (overrides : Bindings) (a : ArgumentAction) (default : Option String) (value : String)

theorem lookup_push_set (x : String) :
    ((ofOverrides (overrides.set a.name value)).push (a.declaration default)).lookup x =
      if a.name = x then some value else overrides.get? x := by
  rw [lookup_push _ _ _ rfl, lookup_ofOverrides, Bindings.get?_set]
  by_cases h : a.name = x
  · simp [h]
  · simp [h, ArgumentAction.declaration]

theorem lookup_push_erase (x : String) :
    ((ofOverrides (overrides.erase a.name)).push (a.declaration (some value))).lookup x =
      if a.name = x then some value else overrides.get? x := by
  rw [lookup_push _ _ _ rfl, lookup_ofOverrides, Bindings.get?_erase]
  by_cases h : a.name = x
  · simp [h, ArgumentAction.declaration]
  · simp [h, ArgumentAction.declaration]

/-- Once the argument is declared, its override shows what a default would. -/
theorem sameView_default (X : String → Prop) :
    SameView X ((ofOverrides (overrides.set a.name value)).push (a.declaration default))
      ((ofOverrides (overrides.erase a.name)).push (a.declaration (some value))) where
  declared x _ := by rw [isDeclared_push, isDeclared_push]; rfl
  lookup x _ := by rw [lookup_push_set, lookup_push_erase]

/-- The choices are asked for a value, wherever it comes from. -/
theorem checkChoice_default :
    ((ofOverrides (overrides.set a.name value)).push (a.declaration default)).checkChoice
        (a.declaration default) =
      ((ofOverrides (overrides.erase a.name)).push (a.declaration (some value))).checkChoice
        (a.declaration (some value)) := by
  have hvalues := (sameView_default overrides a default value fun _ => True).lookup a.name trivial
  simp only [checkChoice]
  rw [show (a.declaration default).name = a.name from rfl,
    show (a.declaration (some value)).name = a.name from rfl, hvalues]
  rfl

end

end ArgumentTable

variable {σ : Type} {host : Host σ} {env : Environment} {source : Source}

namespace Compose

open Walk

theorem resolveText?_text (value : String) (w : Walk σ) :
    (resolveText? host env (some [.text value])).run w = (.ok (some value), w) := by
  have hlist : (Substitution.resolveList host env w.arguments [.text value]).run w.session =
      (.ok (value ++ ""), w.session) := rfl
  rw [resolveText?, run_map, resolveText, run_resolving, hlist, String.append_empty]
  rfl

/-- An unconditional argument is declared once its default is resolved, and its value is one of its
choices or the description fails. -/
theorem run_argument {a : ArgumentAction} (hconditions : a.conditions = []) {w u : Walk σ}
    {default : Option String} (h : (resolveText? host env a.default).run w = (.ok default, u))
    (hnew : u.arguments.isDeclared a.name = false) (source : Source) (nesting : Nat)
    (rest : Description) :
    (run host env source nesting (.argument a :: rest)).run w =
      let v : Walk σ := { u with arguments := u.arguments.push (a.declaration default) }
      match v.arguments.checkChoice (a.declaration default) with
      | .ok _ => (run host env source nesting rest).run v
      | .error cause => (.error (.action (Action.argument a).identity (.bare cause)), v) := by
  have hholds : (decides host env (.argument a)).run w = (.ok true, w) := by
    rw [decides, Action.conditions, hconditions]
    rfl
  have haction : (runAction host env source (nested host env source nesting) (.argument a)).run w =
      (((u.arguments.push (a.declaration default)).checkChoice (a.declaration default)).mapError .bare,
        { u with arguments := u.arguments.push (a.declaration default) }) := by
    rw [runAction_eq, run_bind_ok hholds]
    change (declare host env a).run w = _
    rw [declare_eq, run_bind_ok h, ExceptT.run_mk, ArgumentTable.declare_new hnew]
  dsimp only
  cases hchoice : (u.arguments.push (a.declaration default)).checkChoice (a.declaration default) with
  | ok _ =>
    rw [hchoice] at haction
    exact run_cons_ok haction
  | error cause =>
    rw [hchoice] at haction
    exact run_cons_error haction

end Compose

namespace Composition

open Compose Walk

variable {outcome : String → Except SubstitutionError String}

/-- Walks that show the same go on alike. -/
theorem run_alike (hsteady : host.Steady env outcome) (source : Source) (nesting : Nat)
    (description : Description) {w₁ w₂ : Walk σ}
    (hsession : Session.Alike host outcome w₁.session w₂.session) (hchain : w₁.chain = w₂.chain)
    (hview : w₁.arguments.SameView (fun _ => True) w₂.arguments) :
    Agree never (Abreast (Session.Alike host outcome) (fun _ => True) w₁ w₂)
      ((run host env source nesting description).run w₁)
      ((run host env source nesting description).run w₂) :=
  run_simulates hsteady.alike source.same_chains (fun _ _ _ _ _ _ => trivial)
    (fun _ _ _ _ => trivial) ⟨rfl, hchain⟩ w₁ w₂ (.start hsession hview)

/-- Two walks that began with one argument each, with one value, report it with that value and all
others alike. -/
theorem reported_alike {S : Session σ → Session σ → Prop} {w₁ w₂ v₁ v₂ : Walk σ}
    (hw : Abreast S (fun _ => True) w₁ w₂ v₁ v₂) (hgrows₁ : w₁.arguments.Grows v₁.arguments)
    (hgrows₂ : w₂.arguments.Grows v₂.arguments) {d₁ d₂ : Declaration} {value : String}
    (hd₁ : w₁.arguments.declarations = [d₁]) (hd₂ : w₂.arguments.declarations = [d₂])
    (hvalue₁ : w₁.arguments.lookup d₁.name = some value)
    (hvalue₂ : w₂.arguments.lookup d₂.name = some value) :
    ∃ others, argumentValues v₁.arguments = (d₁, some value) :: others ∧
      argumentValues v₂.arguments = (d₂, some value) :: others := by
  obtain ⟨new, -, hnew₁, hnew₂⟩ := hw.declarations
  rw [hd₁] at hnew₁
  rw [hd₂] at hnew₂
  refine ⟨new.map fun d => (d, v₂.arguments.lookup d.name), ?_, ?_⟩
  · rw [argumentValues, hnew₁, List.singleton_append, List.map_cons, hgrows₁.lookup hvalue₁]
    exact congrArg _ (List.map_congr_left fun d _ => by rw [hw.view.lookup d.name trivial])
  · rw [argumentValues, hnew₂, List.singleton_append, List.map_cons, hgrows₂.lookup hvalue₂]

/-- Walks that began with one argument each, with one value, and show the same otherwise, come to the
same failure, or to the same processes and reported values. -/
theorem run_begun (hsteady : host.Steady env outcome) (source : Source) (nesting : Nat)
    (description : Description) {w₁ w₂ : Walk σ}
    (hsession : Session.Alike host outcome w₁.session w₂.session) (hchain : w₁.chain = w₂.chain)
    (hview : w₁.arguments.SameView (fun _ => True) w₂.arguments)
    (hprocesses : w₁.processes = w₂.processes) {d₁ d₂ : Declaration} {value : String}
    (hd₁ : w₁.arguments.declarations = [d₁]) (hd₂ : w₂.arguments.declarations = [d₂])
    (hvalue₁ : w₁.arguments.lookup d₁.name = some value)
    (hvalue₂ : w₂.arguments.lookup d₂.name = some value) {result₁ result₂ : Except LaunchError Unit}
    {v₁ v₂ : Walk σ} (hrun₁ : (run host env source nesting description).run w₁ = (result₁, v₁))
    (hrun₂ : (run host env source nesting description).run w₂ = (result₂, v₂)) :
    result₁ = result₂ ∧ v₁.processes = v₂.processes ∧
      ∃ others, argumentValues v₁.arguments = (d₁, some value) :: others ∧
        argumentValues v₂.arguments = (d₂, some value) :: others := by
  have hkeeps : Keeps (Frame (Session.Led host env)) (run host env source nesting description) :=
    run_keeps (host.output_led env) nesting description
  have halike := run_alike hsteady source nesting description hsession hchain hview
  rw [hrun₁, hrun₂] at halike
  obtain ⟨hresult, hw⟩ := agree_never.1 halike
  obtain ⟨new, hnew₁, hnew₂⟩ := hw.processes
  refine ⟨hresult, ?_, reported_alike hw (hkeeps.of_run hrun₁).arguments
    (hkeeps.of_run hrun₂).arguments hd₁ hd₂ hvalue₁ hvalue₂⟩
  rw [hnew₁, hnew₂, hprocesses]

/-- Overriding an argument comes to the same as editing its default, for a description that begins
with it, whatever is done with it further on: the same failure, or the same processes and reported
values. The argument itself is reported with the default that it has. -/
theorem override_eq_default (hsteady : host.Steady env outcome) {a : ArgumentAction}
    (hconditions : a.conditions = []) (source : Source) (rest : Description) (key : Option String)
    (overrides : Bindings) (value : String) {session : Session σ} (hs : session.Faithful outcome)
    {default : Option String} {u : Walk σ}
    (hdefault : (resolveText? host env a.default).run
      (start host source (.argument a :: rest) key (overrides.set a.name value) session).walk =
        (.ok default, u)) :
    let overridden := (ofDescription host env source (.argument a :: rest) key
      (overrides.set a.name value) session).1
    let edited := (ofDescription host env source (.argument (a.withDefault value) :: rest) key
      (overrides.erase a.name) session).1
    (∃ e, overridden = .error e ∧ edited = .error e) ∨
      ∃ manifest others,
        overridden = .ok ⟨manifest, (a.declaration default, some value) :: others⟩ ∧
        edited = .ok ⟨manifest, (a.declaration (some value), some value) :: others⟩ := by
  obtain ⟨hfollows, hu⟩ := (resolveText?_keeps hsteady.output_follows a.default).of_run hdefault
  generalize u.session = later at hfollows hu
  subst hu
  let n := source.nesting (host.files session.machine)
  -- The walks after the first declaration, which show the same from there on.
  let w₁ : Walk σ :=
    { arguments := (ArgumentTable.ofOverrides (overrides.set a.name value)).push
        (a.declaration default)
      chain := key.toList
      session := later }
  let w₂ : Walk σ :=
    { arguments := (ArgumentTable.ofOverrides (overrides.erase a.name)).push
        (a.declaration (some value))
      chain := key.toList
      session }
  have hfirst : (start host source (.argument a :: rest) key (overrides.set a.name value)
      session).finish host env source =
        match w₁.arguments.checkChoice (a.declaration default) with
        | .ok _ => (run host env source n rest).run w₁
        | .error cause => (.error (.action (Action.argument a).identity (.bare cause)), w₁) :=
    run_argument hconditions hdefault rfl source n rest
  have hsecond : (start host source (.argument (a.withDefault value) :: rest) key
      (overrides.erase a.name) session).finish host env source =
        match w₂.arguments.checkChoice (a.declaration (some value)) with
        | .ok _ => (run host env source n rest).run w₂
        | .error cause => (.error (.action (Action.argument a).identity (.bare cause)), w₂) :=
    run_argument (a := a.withDefault value) hconditions (resolveText?_text value _) rfl source n rest
  have hchoice : w₁.arguments.checkChoice (a.declaration default) =
      w₂.arguments.checkChoice (a.declaration (some value)) :=
    ArgumentTable.checkChoice_default overrides a default value
  simp only [ofDescription_eq, hfirst, hsecond, hchoice]
  cases w₂.arguments.checkChoice (a.declaration (some value)) with
  | error cause => exact .inl ⟨_, rfl, rfl⟩
  | ok _ =>
    have hsame : Session.Alike host outcome w₁.session w₂.session :=
      ⟨hfollows.faithful hs, hs, hfollows.files⟩
    have hview : w₁.arguments.SameView (fun _ => True) w₂.arguments :=
      ArgumentTable.sameView_default overrides a default value _
    have hvalue₁ : w₁.arguments.lookup a.name = some value := by
      rw [ArgumentTable.lookup_push_set, if_pos rfl]
    have hvalue₂ : w₂.arguments.lookup a.name = some value := by
      rw [ArgumentTable.lookup_push_erase, if_pos rfl]
    rcases hrun₁ : (run host env source n rest).run w₁ with ⟨result₁, v₁⟩
    rcases hrun₂ : (run host env source n rest).run w₂ with ⟨result₂, v₂⟩
    obtain ⟨rfl, hprocesses, others, h₁, h₂⟩ :=
      run_begun hsteady source n rest hsame rfl hview rfl rfl rfl hvalue₁ hvalue₂ hrun₁ hrun₂
    cases result₁ with
    | error e => exact .inl ⟨e, rfl, rfl⟩
    | ok _ =>
      refine .inr ⟨⟨v₁.processes⟩, others, by rw [← h₁]; rfl, ?_⟩
      rw [hprocesses, ← h₂]
      rfl

def rateArgument : ArgumentAction where
  name := "rate"
  default := some [.command [.text "slow"]]
  choices := some ["slow", "fast"]

/-- The rate goes into two descriptions that declare it as well, and is overridden for one of them
from its own value. -/
def rateRest : Description :=
  [.inclusion { locator := [.text "lidar"] },
    .inclusion { locator := [.text "camera"], overrides := [("rate", [.argument "rate", .text "er"])] }]

def rateDescriptions : List (String × Description) :=
  [("lidar", [.argument { name := "rate", default := some [.text "10"], choices := some ["fast"] },
      .process { executable := [.text "lidar"], arguments := [[.argument "rate"]] }]),
    ("camera", [.argument { name := "rate", default := some [.text "30"] },
      .process { executable := [.text "camera"], arguments := [[.argument "rate"]] }])]

def rateProcesses : List PlannedProcess :=
  [{ executable := "lidar", arguments := ["fast"] },
    { executable := "camera", arguments := ["faster"] }]

def rateOverridden : Except LaunchError Composition :=
  (ofDescription Host.echo {} (.memory rateDescriptions) (.argument rateArgument :: rateRest) none
    (Bindings.set [("site", "lab")] "rate" "fast") (.fresh ())).1

def rateEdited : Except LaunchError Composition :=
  (ofDescription Host.echo {} (.memory rateDescriptions)
    (.argument (rateArgument.withDefault "fast") :: rateRest) none
    (Bindings.erase [("site", "lab")] "rate") (.fresh ())).1

theorem rate_as_default :
    ∃ c d, rateOverridden = .ok c ∧ rateEdited = .ok d ∧ c.manifest = d.manifest ∧
      c.manifest.processes = rateProcesses ∧
      c.arguments = [(rateArgument.declaration (some "slow"), some "fast")] ∧
      d.arguments = [(rateArgument.declaration (some "fast"), some "fast")] := by
  have hshown : rateOverridden.toOption.map (fun c => (c.manifest.processes, c.arguments.length)) =
      some (rateProcesses, 1) := by decide +kernel
  obtain ⟨e, he, -⟩ | ⟨manifest, others, hc, hd⟩ :
      (∃ e, rateOverridden = .error e ∧ rateEdited = .error e) ∨ ∃ manifest others,
        rateOverridden = .ok ⟨manifest, (rateArgument.declaration (some "slow"), some "fast") :: others⟩ ∧
        rateEdited = .ok ⟨manifest, (rateArgument.declaration (some "fast"), some "fast") :: others⟩ :=
    override_eq_default (Host.echo_steady {}) rfl (.memory rateDescriptions) rateRest none
      [("site", "lab")] "fast" (Session.fresh_faithful ()) rfl
  · rw [he] at hshown
    cases hshown
  · rw [hc] at hshown
    obtain ⟨hprocesses, hlength⟩ := Prod.mk.inj (Option.some.inj hshown)
    obtain rfl : others = [] := List.eq_nil_of_length_eq_zero (Nat.succ.inj hlength)
    exact ⟨_, _, hc, hd, rfl, hprocesses, rfl, rfl⟩

end Composition

end LaunchPlan
