import LaunchPlan.Proofs.Moments

/-!
# Composing side by side

Two walks over two hosts, with different chains of descriptions and different argument tables, come
to the same result as long as the tables show the same values, the hosts answer alike, and the
chains let the same descriptions in. What they have in common at every moment is stated once and
kept by every action.
-/

namespace LaunchPlan

open Computing

variable {σ τ : Type}

namespace Walk

/-- The walks `w₁` and `w₂` have come from `v₁` and `v₂` side by side, each in its scope: they show
the same of the names in `X`, and have the same further declarations, of such names, and the same
further processes. -/
structure Abreast (S : Session σ → Session τ → Prop) (X : String → Prop) (v₁ : Walk σ)
    (v₂ : Walk τ) (w₁ : Walk σ) (w₂ : Walk τ) : Prop where
  session : S w₁.session w₂.session
  view : w₁.arguments.SameView X w₂.arguments
  enclosing₁ : w₁.arguments.enclosing = v₁.arguments.enclosing
  enclosing₂ : w₂.arguments.enclosing = v₂.arguments.enclosing
  chain₁ : w₁.chain = v₁.chain
  chain₂ : w₂.chain = v₂.chain
  declarations : ∃ new, (∀ d ∈ new, X d.name) ∧
    w₁.arguments.declarations = v₁.arguments.declarations ++ new ∧
    w₂.arguments.declarations = v₂.arguments.declarations ++ new
  processes : ∃ new, w₁.processes = v₁.processes ++ new ∧ w₂.processes = v₂.processes ++ new

namespace Abreast

variable {S : Session σ → Session τ → Prop} {X : String → Prop} {v₁ w₁ : Walk σ} {v₂ w₂ : Walk τ}

theorem start (hs : S v₁.session v₂.session) (hv : v₁.arguments.SameView X v₂.arguments) :
    Abreast S X v₁ v₂ v₁ v₂ :=
  ⟨hs, hv, rfl, rfl, rfl, rfl, ⟨[], by simp⟩, [], by simp⟩

theorem entered (h : Abreast S X v₁ v₂ w₁ w₂) (key : String) :
    Abreast S X (w₁.entered key) (w₂.entered key) (w₁.entered key) (w₂.entered key) :=
  start h.session (.enter h.view.lookup key key)

/-- Leaving the scopes that two walks have entered puts them side by side where they were. -/
theorem left (h : Abreast S X v₁ v₂ w₁ w₂) {key : String} {u₁ : Walk σ} {u₂ : Walk τ}
    (hu : Abreast S X (w₁.entered key) (w₂.entered key) u₁ u₂) :
    Abreast S X v₁ v₂ u₁.left u₂.left := by
  obtain ⟨new, hnew₁, hnew₂⟩ := h.processes
  obtain ⟨more, hmore₁, hmore₂⟩ := hu.processes
  have h₁ : Inner (fun _ _ => True) (w₁.entered key) u₁ :=
    ⟨trivial, hu.enclosing₁, hu.chain₁, more, hmore₁.symm⟩
  have h₂ : Inner (fun _ _ => True) (w₂.entered key) u₂ :=
    ⟨trivial, hu.enclosing₂, hu.chain₂, more, hmore₂.symm⟩
  rw [h₁.left, h₂.left]
  refine ⟨hu.session, h.view, h.enclosing₁, h.enclosing₂, h.chain₁, h.chain₂, h.declarations,
    new ++ more, ?_, ?_⟩
  · simp [hmore₁, Walk.entered, hnew₁]
  · simp [hmore₂, Walk.entered, hnew₂]

end Abreast

end Walk

/-- Chains, with how many descriptions may still be nested, that let in the same descriptions,
unless the first one fails badly. -/
structure ChainSimulation (source : Source) (bad : LaunchCause → Prop)
    (K : Nat → List String → Nat → List String → Prop) : Prop where
  load : ∀ {n₁ c₁ n₂ c₂}, K n₁ c₁ n₂ c₂ → ∀ tree locator,
    source.load tree locator c₁.getLast? = source.load tree locator c₂.getLast?
  visited : ∀ {n₁ c₁ n₂ c₂}, K n₁ c₁ n₂ c₂ → ∀ key ∈ c₂, key ∈ c₁
  cycle : ∀ {n₁ c₁ n₂ c₂}, K n₁ c₁ n₂ c₂ → ∀ key ∈ c₁,
    bad (.includeCycle (c₁ ++ [key])) ∨ c₁ = c₂
  deeper : ∀ {n₁ c₁ n₂ c₂}, K n₁ c₁ n₂ c₂ → ∀ {tree locator including loaded},
    source.load tree locator including = .ok loaded → loaded.key ∉ c₁ →
      n₁ = 0 ∧ n₂ = 0 ∨
        ∃ m₁ m₂, n₁ = m₁ + 1 ∧ n₂ = m₂ + 1 ∧ K m₁ (c₁ ++ [loaded.key]) m₂ (c₂ ++ [loaded.key])

/-- A source may give this. -/
def Source.Gives (source : Source) (loaded : Loaded) : Prop :=
  ∃ tree locator including, source.load tree locator including = .ok loaded

namespace Compose

open Walk Substitution

variable {host₁ : Host σ} {host₂ : Host τ} {env : Environment} {source : Source}
  {S : Session σ → Session τ → Prop} {X : String → Prop} {bad : LaunchError → Prop}
  {v₁ : Walk σ} {v₂ : Walk τ}

theorem resolving_simulates {α : Type} {r₁ : ArgumentTable → Resolving σ α}
    {r₂ : ArgumentTable → Resolving τ α}
    (h : ∀ t₁ t₂, ArgumentTable.SameView X t₁ t₂ → Simulates never S (r₁ t₁) (r₂ t₂)) :
    Simulates bad (Abreast S X v₁ v₂) (resolving r₁) (resolving r₂) := by
  intro w₁ w₂ hw
  have hr := agree_never.1 (h _ _ hw.view _ _ hw.session)
  rw [run_resolving, run_resolving, hr.1]
  exact .inr ⟨rfl, { hw with session := hr.2 }⟩

theorem within_simulates {α : Type} {key : String} {b₁ : Composing σ α} {b₂ : Composing τ α}
    (h : ∀ w₁ w₂, Abreast S X v₁ v₂ w₁ w₂ →
      Simulates bad (Abreast S X (w₁.entered key) (w₂.entered key)) b₁ b₂) :
    Simulates bad (Abreast S X v₁ v₂) (within key b₁) (within key b₂) := by
  intro w₁ w₂ hw
  rw [run_within, run_within]
  exact (h w₁ w₂ hw _ _ (hw.entered key)).imp_right (And.imp_right hw.left)

theorem inAction_simulates {α : Type} {identity : String} {b₁ : Composing σ α}
    {b₂ : Composing τ α} {R : Walk σ → Walk τ → Prop}
    (hbad : ∀ e, bad e → bad (e.inAction identity)) (h : Simulates bad R b₁ b₂) :
    Simulates bad R (inAction identity b₁) (inAction identity b₂) := by
  intro w₁ w₂ hw
  rw [run_inAction, run_inAction]
  rcases h w₁ w₂ hw with ⟨e, he, hb⟩ | ⟨hr, hs⟩
  · exact .inl ⟨_, by rw [he]; rfl, hbad e hb⟩
  · exact .inr ⟨by rw [hr], hs⟩

variable (sim : HostSimulation host₁ host₂ env S)

include sim

theorem resolveText_simulates {expression : List Substitution}
    (hX : ∀ x ∈ listNames expression, X x) :
    Simulates bad (Abreast S X v₁ v₂) (resolveText host₁ env expression)
      (resolveText host₂ env expression) :=
  resolving_simulates fun _ _ h => resolveList_simulates sim expression fun x hx =>
    h.lookup x (hX x hx)

theorem resolveText?_simulates {expression : Option (List Substitution)}
    (hX : ∀ x ∈ defaultNames expression, X x) :
    Simulates bad (Abreast S X v₁ v₂) (resolveText? host₁ env expression)
      (resolveText? host₂ env expression) :=
  resolveText?_composes host₁ host₂ Simulates.composes fun e he =>
    resolveText_simulates sim fun x hx => hX x (by rw [he]; exact hx)

theorem decides_simulates {action : Action}
    (hX : ∀ c ∈ action.conditions, ∀ x ∈ listNames c.expression, X x) :
    Simulates bad (Abreast S X v₁ v₂) (decides host₁ env action) (decides host₂ env action) :=
  resolving_simulates fun _ _ h => Condition.allHold_simulates sim action.conditions
    fun c hc x hx => h.lookup x (hX c hc x hx)

theorem declare_simulates {a : ArgumentAction} (hname : X a.name)
    (hX : ∀ x ∈ defaultNames a.default, X x) :
    Simulates bad (Abreast S X v₁ v₂) (declare host₁ env a) (declare host₂ env a) := by
  rw [declare_eq, declare_eq]
  refine (resolveText?_simulates sim hX).bind fun default w₁ w₂ hw => ?_
  generalize hd : a.declaration default = d
  have hdname : X d.name := by
    rw [← hd]
    exact hname
  obtain ⟨hr, hv⟩ := hw.view.declare hdname
  rw [ExceptT.run_mk, ExceptT.run_mk]
  refine .inr ⟨congrArg (Except.mapError _) hr,
    { hw with view := hv, enclosing₁ := ?_, enclosing₂ := ?_, declarations := ?_ }⟩
  · obtain ⟨ds, hds⟩ := w₁.arguments.grows_declare d
    rw [hds]
    exact hw.enclosing₁
  · obtain ⟨ds, hds⟩ := w₂.arguments.grows_declare d
    rw [hds]
    exact hw.enclosing₂
  · obtain ⟨new, hnew, h₁, h₂⟩ := hw.declarations
    have hdeclared := hw.view.declared d.name hdname
    rw [ArgumentTable.declarations_declare, ArgumentTable.declarations_declare, h₁, h₂, hdeclared]
    cases w₂.arguments.isDeclared d.name with
    | true => exact ⟨new, hnew, rfl, rfl⟩
    | false =>
      refine ⟨new ++ [d], fun e he => ?_, by simp, by simp⟩
      rcases List.mem_append.1 he with he | he
      · exact hnew e he
      · obtain rfl := List.mem_singleton.1 he
        exact hdname

theorem setOverride_simulates {binding : String × List Substitution}
    (hX : ∀ x ∈ listNames binding.2, X x) :
    Simulates bad (Abreast S X v₁ v₂) (setOverride host₁ env binding)
      (setOverride host₂ env binding) :=
  (resolveText_simulates sim hX).bind fun value _ _ hw =>
    .inr ⟨rfl, { hw with view := hw.view.setOverride binding.1 value }⟩

theorem setFromFile_simulates {node : String} {done : Bindings × List String}
    {file : List Substitution} (hX : ∀ x ∈ listNames file, X x) :
    Simulates bad (Abreast S X v₁ v₂) (setFromFile host₁ env node done file)
      (setFromFile host₂ env node done file) := by
  refine (resolveText_simulates sim hX).bind fun path w₁ w₂ hw => ?_
  rw [run_bind_ok (run_currentTree host₁ w₁), run_bind_ok (run_currentTree host₂ w₂),
    sim.files hw.session]
  cases Parameters.load (host₂.files w₂.session.machine) path (some node) with
  | ok parameters => exact .inr ⟨rfl, hw⟩
  | error e => exact .inr ⟨rfl, hw⟩

theorem resolveProcess_simulates {p : ProcessTemplate} (hX : ∀ x ∈ p.names, X x) :
    Simulates bad (Abreast S X v₁ v₂) (resolveProcess host₁ env p)
      (resolveProcess host₂ env p) := by
  refine resolveProcess_composes host₁ host₂ Simulates.composes (fun e he => ?_)
    fun node done file hf => ?_
  · exact resolveText_simulates sim fun x hx => hX x (ProcessTemplate.mem_names_of_expressions he hx)
  · exact setFromFile_simulates sim fun x hx => hX x (ProcessTemplate.mem_names_of_paramFiles hf hx)

variable {K : Nat → List String → Nat → List String → Prop} {n₁ n₂ : Nat}
  {badCause : LaunchCause → Prop} (chains : ChainSimulation source badCause K)
  (hK : K n₁ v₁.chain n₂ v₂.chain)

include chains hK

theorem loadInclusion_simulates {i : Inclusion} (hX : ∀ x ∈ listNames i.locator, X x) :
    Simulates (fun e => badCause e.cause) (Abreast S X v₁ v₂) (loadInclusion host₁ env source i)
      (loadInclusion host₂ env source i) := by
  rw [loadInclusion_eq, loadInclusion_eq]
  refine (resolveText_simulates sim hX).bind fun locator w₁ w₂ hw => ?_
  change Agree _ _ (accept w₁.chain (source.load _ locator w₁.chain.getLast?), w₁)
    (accept w₂.chain (source.load _ locator w₂.chain.getLast?), w₂)
  rw [hw.chain₁, hw.chain₂, chains.load hK, sim.files hw.session]
  cases source.load (host₂.files w₂.session.machine) locator v₂.chain.getLast? with
  | error e => exact .inr ⟨rfl, hw⟩
  | ok loaded =>
    simp only [accept]
    by_cases h₁ : loaded.key ∈ v₁.chain
    · rw [if_pos h₁]
      rcases chains.cycle hK _ h₁ with hbad | heq
      · exact .inl ⟨_, rfl, hbad⟩
      · rw [← heq, if_pos h₁]
        exact .inr ⟨rfl, hw⟩
    · rw [if_neg h₁, if_neg fun h₂ => h₁ (chains.visited hK _ h₂)]
      exact .inr ⟨rfl, hw⟩

variable {nested₁ : Loaded → Composing σ Unit} {nested₂ : Loaded → Composing τ Unit}
  (hn : ∀ loaded (u₁ : Walk σ) (u₂ : Walk τ), source.Gives loaded → loaded.key ∉ v₁.chain →
    u₁.chain = v₁.chain ++ [loaded.key] → u₂.chain = v₂.chain ++ [loaded.key] →
      Simulates (fun e => badCause e.cause) (Abreast S X u₁ u₂) (nested₁ loaded) (nested₂ loaded))

include hn

theorem act_simulates {action : Action} (hX : ∀ x ∈ action.bodyNames, X x) :
    Simulates (fun e => badCause e.cause) (Abreast S X v₁ v₂) (act host₁ env source nested₁ action)
      (act host₂ env source nested₂ action) := by
  cases action with
  | argument a =>
    simp only [Action.bodyNames, List.mem_cons] at hX
    exact declare_simulates sim (hX _ (.inl rfl)) fun x hx => hX x (.inr hx)
  | process p =>
    refine (resolveProcess_simulates sim hX).bind fun planned w₁ w₂ hw => .inr ⟨rfl, ?_⟩
    obtain ⟨new, h₁, h₂⟩ := hw.processes
    exact { hw with processes := ⟨new ++ [planned], by
      constructor
      · change w₁.processes ++ [planned] = _
        rw [h₁, List.append_assoc]
      · change w₂.processes ++ [planned] = _
        rw [h₂, List.append_assoc]⟩ }
  | inclusion i =>
    simp only [Action.bodyNames, List.mem_append, List.mem_flatMap] at hX
    refine (loadInclusion_simulates sim chains hK fun x hx => hX x (.inl hx)).bind_of
      (P := fun loaded => source.Gives loaded ∧ loaded.key ∉ v₁.chain) ?_ ?_
    · intro w₁ w₂ loaded u hw h
      obtain ⟨locator, -, hload, hkey⟩ := loadInclusion_ok h
      exact ⟨⟨_, _, _, hload⟩, hw.chain₁ ▸ hkey⟩
    · rintro loaded ⟨hgives, hkey⟩
      refine within_simulates fun w₁ w₂ hw => (Simulates.forM fun b hb => ?_).bind fun _ => ?_
      · exact setOverride_simulates sim fun x hx => hX x (.inr ⟨b, hb, hx⟩)
      · exact hn loaded _ _ hgives hkey (congrArg (· ++ [loaded.key]) hw.chain₁)
          (congrArg (· ++ [loaded.key]) hw.chain₂)

theorem runAction_simulates {action : Action} (hX : ∀ x ∈ action.names, X x) :
    Simulates (fun e => badCause e.cause) (Abreast S X v₁ v₂)
      (runAction host₁ env source nested₁ action) (runAction host₂ env source nested₂ action) := by
  simp only [Action.names, List.mem_append, List.mem_flatMap] at hX
  rw [runAction_eq, runAction_eq]
  refine (decides_simulates sim fun c hc x hx => hX x (.inl ⟨c, hc, hx⟩)).bind fun holds => ?_
  cases holds with
  | true => exact act_simulates sim chains hK hn fun x hx => hX x (.inr hx)
  | false => exact .pure ()

theorem runActions_simulates {description : Description}
    (hX : ∀ action ∈ description, ∀ x ∈ action.names, X x) :
    Simulates (fun e => badCause e.cause) (Abreast S X v₁ v₂)
      (runActions host₁ env source nested₁ description)
      (runActions host₂ env source nested₂ description) :=
  .forM fun action ha => inAction_simulates (fun _ h => by rwa [LaunchError.cause_inAction])
    (runAction_simulates sim chains hK hn (hX action ha))

omit hn hK

/-- Descriptions that mention only names in `X` are composed alike, to any depth. -/
theorem run_simulates (hsource : ∀ loaded, source.Gives loaded →
      ∀ action ∈ loaded.description, ∀ x ∈ action.names, X x)
    {description : Description} (hX : ∀ action ∈ description, ∀ x ∈ action.names, X x)
    (hK : K n₁ v₁.chain n₂ v₂.chain) :
    Simulates (fun e => badCause e.cause) (Abreast S X v₁ v₂)
      (run host₁ env source n₁ description) (run host₂ env source n₂ description) := by
  induction n₁ generalizing n₂ description v₁ v₂ with
  | zero =>
    rw [run_eq, run_eq]
    refine runActions_simulates sim chains hK (fun loaded u₁ u₂ hg hkey h₁ h₂ => ?_) hX
    obtain ⟨_, _, _, hload⟩ := hg
    rcases chains.deeper hK hload hkey with ⟨-, rfl⟩ | ⟨m₁, m₂, h, -⟩
    · exact .throw _
    · omega
  | succ n₁ ih =>
    rw [run_eq, run_eq]
    refine runActions_simulates sim chains hK (fun loaded u₁ u₂ hg hkey h₁ h₂ => ?_) hX
    obtain ⟨_, _, _, hload⟩ := hg
    rcases chains.deeper hK hload hkey with ⟨h, -⟩ | ⟨m₁, m₂, hm, rfl, hK'⟩
    · omega
    · obtain rfl : n₁ = m₁ := by omega
      exact ih (hsource loaded ⟨_, _, _, hload⟩) (h₁ ▸ h₂ ▸ hK')

end Compose

/-- A chain lets in what it lets in. -/
theorem Source.same_chains (source : Source) :
    ChainSimulation source (fun _ => False) fun n₁ c₁ n₂ c₂ => n₁ = n₂ ∧ c₁ = c₂ where
  load := by
    rintro n₁ c₁ n₂ c₂ ⟨-, rfl⟩ tree locator
    rfl
  visited := by
    rintro n₁ c₁ n₂ c₂ ⟨-, rfl⟩ key hkey
    exact hkey
  cycle h _ _ := .inr h.2
  deeper := by
    rintro (_ | n₁) c₁ n₂ c₂ ⟨rfl, rfl⟩ tree locator including loaded - -
    · exact .inl ⟨rfl, rfl⟩
    · exact .inr ⟨n₁, n₁, rfl, rfl, rfl, rfl⟩

namespace Composition

open Walk

variable {host₁ : Host σ} {host₂ : Host τ} {env : Environment}
  {S : Session σ → Session τ → Prop}

theorem argumentValues_eq {X : String → Prop} {t₁ t₂ : ArgumentTable} (hv : t₁.SameView X t₂)
    (hd : t₁.declarations = t₂.declarations) (hX : ∀ d ∈ t₂.declarations, X d.name) :
    argumentValues t₁ = argumentValues t₂ := by
  rw [argumentValues, argumentValues, hd]
  exact List.map_congr_left fun d hmem => by rw [hv.lookup _ (hX d hmem)]

/-- Overrides that agree on the names in `X` start a description side by side if only these names are
mentioned. -/
theorem start_agrees (sim : HostSimulation host₁ host₂ env S) (source : Source)
    (description : Description) (key : Option String) (overrides₁ overrides₂ : Bindings)
    {X : String → Prop} (hsource : ∀ loaded, source.Gives loaded →
      ∀ action ∈ loaded.description, ∀ x ∈ action.names, X x)
    (hX : ∀ action ∈ description, ∀ x ∈ action.names, X x)
    (hoverrides : ∀ x, X x → overrides₁.get? x = overrides₂.get? x) {s₁ : Session σ}
    {s₂ : Session τ} (hs : S s₁ s₂) :
    Agree never
      (Abreast S X (start host₁ source description key overrides₁ s₁).walk
        (start host₂ source description key overrides₂ s₂).walk)
      ((start host₁ source description key overrides₁ s₁).finish host₁ env source)
      ((start host₂ source description key overrides₂ s₂).finish host₂ env source) := by
  have hnesting : source.nesting (host₁.files s₁.machine) = source.nesting (host₂.files s₂.machine) :=
    congrArg source.nesting (sim.files hs)
  have hview : ArgumentTable.SameView X (.ofOverrides overrides₁) (.ofOverrides overrides₂) :=
    ⟨fun _ _ => rfl, fun x hx => by simpa using hoverrides x hx⟩
  exact Compose.run_simulates sim source.same_chains hsource hX ⟨hnesting, rfl⟩ _ _
    (.start hs hview)

/-- Where the overrides agree on the names that are mentioned, a description comes to the same. -/
theorem ofDescription_agrees (sim : HostSimulation host₁ host₂ env S) (source : Source)
    (description : Description) (key : Option String) (overrides₁ overrides₂ : Bindings)
    {X : String → Prop} (hsource : ∀ loaded, source.Gives loaded →
      ∀ action ∈ loaded.description, ∀ x ∈ action.names, X x)
    (hX : ∀ action ∈ description, ∀ x ∈ action.names, X x)
    (hoverrides : ∀ x, X x → overrides₁.get? x = overrides₂.get? x) {s₁ : Session σ}
    {s₂ : Session τ} (hs : S s₁ s₂) :
    (ofDescription host₁ env source description key overrides₁ s₁).1 =
        (ofDescription host₂ env source description key overrides₂ s₂).1 ∧
      S (ofDescription host₁ env source description key overrides₁ s₁).2
        (ofDescription host₂ env source description key overrides₂ s₂).2 := by
  obtain ⟨hresult, hw⟩ := agree_never.1
    (start_agrees sim source description key overrides₁ overrides₂ hsource hX hoverrides hs)
  obtain ⟨new, hnew, hd₁, hd₂⟩ := hw.declarations
  obtain ⟨_, hp₁, hp₂⟩ := hw.processes
  simp only [ofDescription_eq, hresult]
  refine ⟨congrArg (Except.map · _) (funext fun _ => ?_), hw.session⟩
  rw [argumentValues_eq hw.view (hd₁.trans hd₂.symm) (hd₂ ▸ hnew), hp₁, hp₂]
  rfl

/-- Where the overrides agree on the names that are mentioned, an entry comes to the same. -/
theorem ofEntry_agrees (sim : HostSimulation host₁ host₂ env S) (source : Source) (entry : Entry)
    (overrides₁ overrides₂ : Bindings) {X : String → Prop}
    (hsource : ∀ loaded, source.Gives loaded →
      ∀ action ∈ loaded.description, ∀ x ∈ action.names, X x)
    (hentry : ∀ description, entry = .described description →
      ∀ action ∈ description, ∀ x ∈ action.names, X x)
    (hoverrides : ∀ x, X x → overrides₁.get? x = overrides₂.get? x) {s₁ : Session σ}
    {s₂ : Session τ} (hs : S s₁ s₂) :
    (ofEntry host₁ env source entry overrides₁ s₁).1 =
        (ofEntry host₂ env source entry overrides₂ s₂).1 ∧
      S (ofEntry host₁ env source entry overrides₁ s₁).2
        (ofEntry host₂ env source entry overrides₂ s₂).2 := by
  cases entry with
  | described description =>
    exact ofDescription_agrees sim source description none overrides₁ overrides₂ hsource
      (hentry description rfl) hoverrides hs
  | located locator =>
    rw [ofEntry, ofEntry, ofLocator_eq, ofLocator_eq, sim.files hs]
    cases hload : source.load (host₂.files s₂.machine) locator none with
    | error cause => exact ⟨rfl, hs⟩
    | ok loaded =>
      exact ofDescription_agrees sim source loaded.description (some loaded.key) overrides₁
        overrides₂ hsource (hsource loaded ⟨_, _, _, hload⟩) hoverrides hs

/-- Hosts that answer alike compose alike. -/
theorem ofEntry_simulates (sim : HostSimulation host₁ host₂ env S) (source : Source)
    (entry : Entry) (overrides : Bindings) {s₁ : Session σ} {s₂ : Session τ} (hs : S s₁ s₂) :
    (ofEntry host₁ env source entry overrides s₁).1 =
        (ofEntry host₂ env source entry overrides s₂).1 ∧
      S (ofEntry host₁ env source entry overrides s₁).2
        (ofEntry host₂ env source entry overrides s₂).2 :=
  ofEntry_agrees sim source entry overrides overrides (X := fun _ => True)
    (fun _ _ _ _ _ _ => trivial) (fun _ _ _ _ _ _ => trivial) (fun _ _ => rfl) hs

end Composition

end LaunchPlan
