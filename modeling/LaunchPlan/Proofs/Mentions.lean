import LaunchPlan.Proofs.Simulation

/-!
# Overrides that nobody mentions

The values of a launch come from its overrides only through the names that its descriptions declare
or ask for. Two launches whose overrides agree on these names are the same launch, down to the
commands that are run.
-/

namespace LaunchPlan

open Computing

variable {σ : Type}

/-- Some action of the description declares the argument, or asks for its value in an expression at
any depth. Overriding an argument for an included description is neither. -/
def Description.Mentions (description : Description) (x : String) : Prop :=
  ∃ action ∈ description, x ∈ action.names

/-- An entry mentions an argument if its own description does; one that is loaded has none. -/
def Entry.Mentions : Entry → String → Prop
  | described description => description.Mentions
  | located _ => fun _ => False

/-- An argument is mentioned by the entry, or by a description that is registered under some
locator. -/
def Mentioned (descriptions : List (String × Description)) (entry : Entry) (x : String) : Prop :=
  entry.Mentions x ∨ ∃ locator description,
    Source.lookup? locator descriptions = some description ∧ description.Mentions x

namespace Source

variable {descriptions : List (String × Description)}

theorem mem_of_lookup?_eq {locator : String} {description : Description}
    (h : lookup? locator descriptions = some description) :
    (locator, description) ∈ descriptions := by
  induction descriptions with
  | nil => cases h
  | cons d descriptions ih =>
    by_cases hd : d.1 = locator
    · rw [lookup?, if_pos hd] at h
      cases h
      exact hd ▸ List.mem_cons_self
    · rw [lookup?, if_neg hd] at h
      exact List.mem_cons_of_mem _ (ih h)

/-- What descriptions held in memory give is registered. -/
theorem memory_gives {loaded : Loaded} (h : (memory descriptions).Gives loaded) :
    lookup? loaded.key descriptions = some loaded.description := by
  obtain ⟨tree, locator, including, h⟩ := h
  simp only [memory] at h
  cases hl : lookup? locator descriptions with
  | none =>
    rw [hl] at h
    cases h
  | some description =>
    rw [hl] at h
    cases h
    exact hl

end Source

/-- A host goes side by side with itself. -/
theorem HostSimulation.same (host : Host σ) (env : Environment) :
    HostSimulation host host env Eq where
  files h := by rw [h]
  output line := by
    rintro s _ rfl
    exact agree_never.2 ⟨rfl, rfl⟩

namespace Composition

/-- Two launches whose overrides agree on every argument that is mentioned come to the same
processes and reported arguments, or to the same failure at the same action, and they leave the same
session. -/
theorem unmentioned_irrelevant (host : Host σ) (env : Environment)
    {descriptions : List (String × Description)} {entry : Entry} {first second : Bindings}
    (h : ∀ x, Mentioned descriptions entry x → first.get? x = second.get? x) (session : Session σ) :
    ofEntry host env (.memory descriptions) entry first session =
      ofEntry host env (.memory descriptions) entry second session := by
  have hsource : ∀ loaded, (Source.memory descriptions).Gives loaded →
      ∀ action ∈ loaded.description, ∀ x ∈ action.names, Mentioned descriptions entry x :=
    fun loaded hgives action ha x hx =>
      .inr ⟨loaded.key, loaded.description, Source.memory_gives hgives, action, ha, hx⟩
  have hentry : ∀ description, entry = .described description →
      ∀ action ∈ description, ∀ x ∈ action.names, Mentioned descriptions entry x := by
    rintro description rfl action ha x hx
    exact .inl ⟨action, ha, hx⟩
  obtain ⟨hresult, hsession⟩ := ofEntry_agrees (.same host env) (.memory descriptions) entry first
    second hsource hentry h (show session = session from rfl)
  exact Prod.ext hresult hsession

/-- An inclusion by what a command prints, which overrides an argument that no description asks
for. -/
def armDescriptions : List (String × Description) :=
  [("main", [.argument { name := "robot", default := some [.text "go2"] },
      .inclusion { locator := [.command [.text "arm"]], overrides := [("debug", [.text "1"])] }]),
    ("arm", [.process
      { executable := [.text "driver"], name := some [.text "arm_", .argument "robot"],
        conditions := [.ifTrue [.env "ARM" (some [.text "yes"])]] }])]

theorem armDescriptions_mentions {x : String}
    (h : Mentioned armDescriptions (.located "main") x) : x = "robot" := by
  have hnames : ∀ d ∈ armDescriptions, ∀ action ∈ d.2, ∀ x ∈ action.names, x = "robot" := by
    decide
  obtain hentry | ⟨locator, description, hl, action, ha, hx⟩ := h
  · cases hentry
  · exact hnames _ (Source.mem_of_lookup?_eq hl) action ha x hx

def armLaunch (overrides : Bindings) : Except LaunchError Composition × Session Unit :=
  ofEntry Host.echo {} (.memory armDescriptions) (.located "main") overrides (.fresh ())

theorem arm_unmentioned :
    armLaunch [("robot", "a1"), ("debug", "2")] = armLaunch [("trace", "on"), ("robot", "a1")] ∧
      ∃ c, (armLaunch [("robot", "a1"), ("debug", "2")]).1 = .ok c ∧
        c.manifest.processes = [{ executable := "driver", name := some "arm_a1" }] := by
  have hagree : ∀ x, Mentioned armDescriptions (.located "main") x →
      Bindings.get? [("robot", "a1"), ("debug", "2")] x =
        Bindings.get? [("trace", "on"), ("robot", "a1")] x := by
    intro x hx
    obtain rfl := armDescriptions_mentions hx
    decide
  have hprocesses : (armLaunch [("robot", "a1"), ("debug", "2")]).1.toOption.map
      (fun c => c.manifest.processes) = some [{ executable := "driver", name := some "arm_a1" }] := by
    decide +kernel
  refine ⟨unmentioned_irrelevant Host.echo {} hagree (.fresh ()), ?_⟩
  cases hok : (armLaunch [("robot", "a1"), ("debug", "2")]).1 with
  | error e =>
    rw [hok] at hprocesses
    cases hprocesses
  | ok c =>
    rw [hok] at hprocesses
    exact ⟨c, rfl, Option.some.inj hprocesses⟩

end Composition

end LaunchPlan
