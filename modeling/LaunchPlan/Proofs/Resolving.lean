import LaunchPlan.Proofs.Computation
import LaunchPlan.Proofs.Expression

/-!
# Resolving on two hosts

What resolving an expression depends on: the values of the arguments that it mentions, the files,
and what asking for the output of a command does to the session. Two hosts that agree on these
resolve alike.
-/

namespace LaunchPlan

open Computing

/-- Sessions in the relation show the same files, and a command asked for in both has the same
outcome and leaves sessions in the relation. -/
structure HostSimulation {σ τ : Type} (host₁ : Host σ) (host₂ : Host τ) (env : Environment)
    (S : Session σ → Session τ → Prop) : Prop where
  files : ∀ {s t}, S s t → host₁.files s.machine = host₂.files t.machine
  output : ∀ line, Simulates never S (host₁.output env line) (host₂.output env line)

/-- Running a command changes no file. -/
def Host.KeepsFiles {σ : Type} (host : Host σ) (env : Environment) : Prop :=
  ∀ line machine, host.files (host.run env line machine).2 = host.files machine

theorem findCase_map {α β : Type} (f : α → β) (key : String) (cases : List (String × α)) :
    findCase key (cases.map fun c => (c.1, f c.2)) = (findCase key cases).map f := by
  induction cases with
  | nil => rfl
  | cons c cases ih =>
    by_cases h : c.1 = key <;> simp [findCase, h, ih]

namespace Selector

variable {ε α β : Type}

theorem choose_map (f : α → β) (condition : ε) (cases : List (String × α)) (default : Option α)
    (value : String) :
    (⟨condition, cases.map fun c => (c.1, f c.2), default.map f⟩ : Selector ε β).choose value =
      ((⟨condition, cases, default⟩ : Selector ε α).choose value).map f := by
  simp only [choose, findCase_map]
  cases findCase value cases <;> cases findCase wildcard cases <;> rfl

theorem mem_of_choose {selector : Selector ε α} {value : String} {a : α}
    (h : selector.choose value = some a) :
    (∃ c ∈ selector.cases, c.2 = a) ∨ a ∈ selector.default := by
  simp only [choose, Option.orElse_eq_orElse, Option.orElse_eq_or, Option.or_eq_some_iff] at h
  rcases h with (h | ⟨-, h⟩) | ⟨-, h⟩
  · exact .inl ⟨_, findCase_mem h, rfl⟩
  · exact .inl ⟨_, findCase_mem h, rfl⟩
  · exact .inr h

end Selector

namespace Substitution

section Equations

variable {σ : Type} (host : Host σ) (env : Environment) (arguments : ArgumentTable)

theorem resolveCases_eq (cases : List (String × Substitution)) :
    resolveCases host env arguments cases =
      cases.map fun c => (c.1, resolve host env arguments c.2) := by
  induction cases with
  | nil => rfl
  | cons c cases ih => simp [resolveCases, ih]

theorem resolveOption_eq (default : Option Substitution) :
    resolveOption host env arguments default = default.map (resolve host env arguments) := by
  cases default <;> rfl

/-- A selector is resolved by resolving the case that is chosen, and no other. -/
theorem resolve_select (condition : Substitution) (cases : List (String × Substitution))
    (default : Option Substitution) :
    resolve host env arguments (select ⟨condition, cases, default⟩) =
      resolve host env arguments condition >>= fun value =>
        match (⟨condition, cases, default⟩ : Selector _ _).choose value with
        | some chosen => resolve host env arguments chosen
        | none => throw (.noMatchingCase value (cases.map Prod.fst)) := by
  rw [resolve]
  congr 1
  funext value
  rw [resolveChoice, resolveCases_eq, resolveOption_eq, Selector.choose_map]
  rcases Selector.choose _ value with _ | chosen
  · simp [Function.comp_def]
  · rfl

end Equations

section Simulation

variable {σ τ : Type} {host₁ : Host σ} {host₂ : Host τ} {env : Environment}
  {S : Session σ → Session τ → Prop} {t₁ t₂ : ArgumentTable}

theorem resolveArgument_simulates {name : String} (h : t₁.lookup name = t₂.lookup name) :
    Simulates never S (resolveArgument t₁ name) (resolveArgument t₂ name) := by
  unfold resolveArgument
  rw [h]
  cases t₂.lookup name with
  | none => exact .throw _
  | some value => exact .pure value

theorem resolvePackage_simulates (sim : HostSimulation host₁ host₂ env S) (package : String) :
    Simulates never S (resolvePackage host₁ env package) (resolvePackage host₂ env package) := by
  intro s t h
  rw [resolvePackage, resolvePackage, run_bind_ok (run_get s), run_bind_ok (run_get t), sim.files h]
  dsimp only
  cases Package.share? (host₂.files t.machine).exists? env package with
  | none => exact .inr ⟨rfl, h⟩
  | some path => exact .inr ⟨rfl, h⟩

theorem resolveList_simulates_of {parts : List Substitution}
    (h : ∀ part ∈ parts, Simulates never S (resolve host₁ env t₁ part)
      (resolve host₂ env t₂ part)) :
    Simulates never S (resolveList host₁ env t₁ parts) (resolveList host₂ env t₂ parts) := by
  induction parts with
  | nil => exact .pure ""
  | cons part parts ih =>
    exact (h part (by simp)).bind fun first =>
      (ih fun p hp => h p (by simp [hp])).bind fun rest => .pure (first ++ rest)

theorem resolveEach_simulates_of {parts : List Substitution}
    (h : ∀ part ∈ parts, Simulates never S (resolve host₁ env t₁ part)
      (resolve host₂ env t₂ part)) :
    Simulates never S (resolveEach host₁ env t₁ parts) (resolveEach host₂ env t₂ parts) := by
  induction parts with
  | nil => exact .pure []
  | cons part parts ih =>
    exact (h part (by simp)).bind fun first =>
      (ih fun p hp => h p (by simp [hp])).bind fun rest => .pure (first :: rest)

/-- An expression is resolved alike where the arguments that it mentions have the same values. -/
theorem resolve_simulates (sim : HostSimulation host₁ host₂ env S) (e : Substitution)
    (h : ∀ x ∈ e.names, t₁.lookup x = t₂.lookup x) :
    Simulates never S (resolve host₁ env t₁ e) (resolve host₂ env t₂ e) := by
  induction e using inductionOn with
  | text s => exact .pure s
  | env name default ih =>
    rw [resolve, resolve]
    cases env.get? name with
    | some value => exact .pure value
    | none =>
      cases default with
      | none => exact .throw _
      | some parts =>
        exact resolveList_simulates_of fun part hp => ih parts rfl part hp fun x hx =>
          h x (mem_listNames.2 ⟨part, hp, hx⟩)
  | argument name => exact resolveArgument_simulates (h name (by simp [names]))
  | command parts ih =>
    rw [resolve, resolve]
    refine (resolveList_simulates_of fun part hp => ih part hp fun x hx => ?_).bind sim.output
    exact h x (mem_listNames.2 ⟨part, hp, hx⟩)
  | concat parts ih =>
    exact resolveList_simulates_of fun part hp => ih part hp fun x hx =>
      h x (mem_listNames.2 ⟨part, hp, hx⟩)
  | pathJoin parts ih =>
    rw [resolve, resolve]
    refine (resolveEach_simulates_of fun part hp => ih part hp fun x hx => ?_).bind
      fun texts => .pure (Path.joinSegments texts)
    exact h x (mem_listNames.2 ⟨part, hp, hx⟩)
  | findPackageShare parts ih =>
    rw [resolve, resolve]
    refine (resolveList_simulates_of fun part hp => ih part hp fun x hx => ?_).bind
      (resolvePackage_simulates sim)
    exact h x (mem_listNames.2 ⟨part, hp, hx⟩)
  | select condition cases default ihc ihs ihd =>
    rw [resolve_select, resolve_select]
    simp only [names, List.mem_append] at h
    refine (ihc fun x hx => h x (.inl (.inl hx))).bind fun value => ?_
    split
    · next chosen hchosen =>
      rcases Selector.mem_of_choose hchosen with ⟨c, hc, rfl⟩ | hd
      · exact ihs c hc fun x hx => h x (.inl (.inr (mem_caseNames.2 ⟨c, hc, hx⟩)))
      · exact ihd chosen hd fun x hx => h x (.inr (mem_optionNames.2 ⟨chosen, hd, hx⟩))
    · exact .throw _

theorem resolveList_simulates (sim : HostSimulation host₁ host₂ env S)
    (parts : List Substitution) (h : ∀ x ∈ listNames parts, t₁.lookup x = t₂.lookup x) :
    Simulates never S (resolveList host₁ env t₁ parts) (resolveList host₂ env t₂ parts) :=
  resolveList_simulates_of fun part hp => resolve_simulates sim part fun x hx =>
    h x (mem_listNames.2 ⟨part, hp, hx⟩)

end Simulation

end Substitution

namespace Condition

variable {σ τ : Type} {host₁ : Host σ} {host₂ : Host τ} {env : Environment}
  {S : Session σ → Session τ → Prop} {t₁ t₂ : ArgumentTable}

theorem truth_simulates (sim : HostSimulation host₁ host₂ env S) (expression : List Substitution)
    (h : ∀ x ∈ Substitution.listNames expression, t₁.lookup x = t₂.lookup x) :
    Simulates never S (truth host₁ env t₁ expression) (truth host₂ env t₂ expression) := by
  refine (Substitution.resolveList_simulates sim expression h).bind fun text => ?_
  cases truth? text with
  | some b => exact .pure b
  | none => exact .throw _

theorem holds_simulates (sim : HostSimulation host₁ host₂ env S) (c : Condition)
    (h : ∀ x ∈ Substitution.listNames c.expression, t₁.lookup x = t₂.lookup x) :
    Simulates never S (c.holds host₁ env t₁) (c.holds host₂ env t₂) := by
  cases c with
  | ifTrue expression => exact truth_simulates sim expression h
  | ifFalse expression => exact (truth_simulates sim expression h).bind fun b => .pure (!b)

theorem allHold_simulates (sim : HostSimulation host₁ host₂ env S) (cs : List Condition)
    (h : ∀ c ∈ cs, ∀ x ∈ Substitution.listNames c.expression, t₁.lookup x = t₂.lookup x) :
    Simulates never S (allHold host₁ env t₁ cs) (allHold host₂ env t₂ cs) := by
  induction cs with
  | nil => exact .pure true
  | cons c cs ih =>
    refine (holds_simulates sim c (h c (by simp))).bind fun b => ?_
    cases b with
    | true => exact ih fun d hd => h d (by simp [hd])
    | false => exact .pure false

end Condition

end LaunchPlan
