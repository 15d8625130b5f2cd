import LaunchPlan.Proofs.Faults
import Mathlib.Data.List.Chain

/-!
# Cycles of inclusions

Each key on the chain is that of a description which includes the next one: the chain only goes on
below an inclusion of the description that its last key belongs to. A launch that fails for a cycle
has met a key of the chain again, so the keys that it reports do go round, unless the source has
made up the failure itself.
-/

namespace LaunchPlan

open Computing

variable {σ : Type}

namespace LaunchError

/-- A failure for another reason than a description that includes itself. -/
def NotCycle (e : LaunchError) : Prop := ¬ Source.IsCycle e.cause

/-- A description is not there, or there is none in what has been read. -/
inductive OfLoading : LaunchError → Prop
  | notFound (locator reason : String) : OfLoading (.bare (.includeNotFound locator reason))
  | malformed (locator : String) (fault : ParseError) : OfLoading (.bare (.parse locator fault))

theorem OfLoading.notCycle {e : LaunchError} (h : e.OfLoading) : e.NotCycle := by
  rintro ⟨chain, hchain⟩
  cases h <;> cases hchain

end LaunchError

namespace Source

/-- The source answers a locator with this failure. -/
def Reports (source : Source) (e : LaunchError) : Prop :=
  ∃ tree locator including, source.load tree locator including = .error e

/-- The source is neither files nor descriptions held in memory. -/
def IsOther (source : Source) : Prop :=
  source ≠ .files ∧ ∀ descriptions, source ≠ .memory descriptions

theorem memory_reports {descriptions : List (String × Description)} {e : LaunchError}
    (h : (memory descriptions).Reports e) : e.OfLoading := by
  obtain ⟨tree, locator, including, h⟩ := h
  rw [memory] at h
  cases hl : lookup? locator descriptions <;> simp only [hl] at h <;> cases h
  exact .notFound _ _

theorem ofFile_error {key : String} {text : Except IoError String} {e : LaunchError}
    (h : ofFile key text = .error e) : e.OfLoading := by
  unfold ofFile at h
  split at h
  · cases h
    exact .notFound _ _
  · split at h <;> cases h
    exact .malformed _ _

theorem files_reports {e : LaunchError} (h : files.Reports e) : e.OfLoading := by
  obtain ⟨tree, locator, including, h⟩ := h
  change (fileKey tree locator including >>= fun key => ofFile key (tree.readText key)) = _ at h
  rw [fileKey] at h
  cases hkey : tree.canonical (filePath locator including) with
  | error _ =>
    rw [hkey] at h
    cases h
    exact .notFound _ _
  | ok key =>
    rw [hkey] at h
    exact ofFile_error h

/-- Files and descriptions held in memory fail in no other way than that a description is not there
or cannot be read. -/
theorem Reports.isOther {source : Source} {e : LaunchError} (h : source.Reports e)
    (he : ¬ e.OfLoading) : source.IsOther := by
  refine ⟨?_, ?_⟩
  · rintro rfl
    exact he (files_reports h)
  · rintro descriptions rfl
    exact he (memory_reports h)

end Source

namespace Compose

open Walk

variable {host : Host σ} {env : Environment} {source : Source}

section Throws

open LaunchError (NotCycle)

theorem resolving_throws {α : Type} (r : ArgumentTable → Resolving σ α) :
    Throws NotCycle (resolving r) := by
  intro w v e h
  obtain ⟨fault, -, -, rfl, -⟩ := resolving_error h
  rintro ⟨chain, hchain⟩
  cases fault <;> cases hchain

theorem resolveText_throws (expression : List Substitution) :
    Throws NotCycle (resolveText host env expression) :=
  resolving_throws _

theorem resolveText?_throws (expression : Option (List Substitution)) :
    Throws NotCycle (resolveText? host env expression) :=
  resolveText?_composes host host Throws.composes fun e _ => resolveText_throws e

theorem decides_throws (action : Action) : Throws NotCycle (decides host env action) :=
  resolving_throws _

theorem declare_throws (a : ArgumentAction) : Throws NotCycle (declare host env a) := by
  rw [declare_eq]
  refine (resolveText?_throws a.default).bind fun default w v e h => ?_
  change ((w.arguments.declare (a.declaration default)).1.mapError _, _) = _ at h
  cases hd : (w.arguments.declare (a.declaration default)).1 with
  | ok _ =>
    rw [hd] at h
    cases h
  | error cause =>
    rw [hd] at h
    cases h
    rintro ⟨chain, rfl⟩
    rcases ArgumentTable.declare_error hd with ⟨-, h⟩ | ⟨-, _, _, -, -, -, h⟩ <;> cases h

theorem setFromFile_throws (node : String) (done : Bindings × List String)
    (file : List Substitution) : Throws NotCycle (setFromFile host env node done file) := by
  refine (resolveText_throws file).bind fun path w v e h => ?_
  rw [run_bind_ok (run_currentTree host w)] at h
  cases hl : Parameters.load (host.files w.session.machine) path (some node) with
  | ok parameters =>
    rw [hl] at h
    cases h
  | error fault =>
    rw [hl] at h
    cases h
    rintro ⟨chain, hchain⟩
    cases hchain

theorem resolveProcess_throws (p : ProcessTemplate) :
    Throws NotCycle (resolveProcess host env p) :=
  resolveProcess_composes host host Throws.composes (fun e _ => resolveText_throws e)
    fun node done file _ => setFromFile_throws node done file

theorem within_throws {α : Type} {P : LaunchError → Prop} {key : String} {body : Composing σ α}
    (h : Throws P body) : Throws P (within key body) := by
  intro w v e hw
  rw [run_within] at hw
  exact h (w.entered key) _ e (Prod.ext (Prod.mk.inj hw).1 rfl)

theorem setOverride_throws (binding : String × List Substitution) :
    Throws NotCycle (setOverride host env binding) :=
  (resolveText_throws binding.2).bind fun _ _ _ _ h => by cases h

end Throws

/-- A description is refused because of the source, or because the chain has its key. -/
theorem accept_error {chain : List String} {result : Except LaunchError Loaded} {e : LaunchError}
    (h : accept chain result = .error e) :
    result = .error e ∨
      ∃ found, result = .ok found ∧ found.key ∈ chain ∧
        e = .bare (.includeCycle (chain ++ [found.key])) := by
  cases result with
  | error refusal =>
    cases h
    exact .inl rfl
  | ok found =>
    by_cases hkey : found.key ∈ chain
    · simp only [accept, hkey, if_true, Except.error.injEq] at h
      exact .inr ⟨found, rfl, hkey, h.symm⟩
    · simp [accept, hkey] at h

/-- Where the way into a description fails for a cycle, its key is on the chain, or the source has
answered with the failure. -/
theorem loadInclusion_cycle {i : Inclusion} {w v : Walk σ} {e : LaunchError}
    (h : (loadInclusion host env source i).run w = (.error e, v)) {chain : List String}
    (hchain : e.cause = .includeCycle chain) :
    ∃ locator answer, (resolveText host env i.locator).run w = (.ok locator, v) ∧
      source.load (host.files v.session.machine) locator w.chain.getLast? = answer ∧
      ((∃ found, answer = .ok found ∧ found.key ∈ w.chain ∧ chain = w.chain ++ [found.key]) ∨
        answer = .error e) := by
  rw [loadInclusion_eq, run_bind] at h
  rcases hlocator : (resolveText host env i.locator).run w with ⟨e' | locator, u⟩ <;>
    rw [hlocator] at h
  · cases h
    exact absurd ⟨chain, hchain⟩ (resolveText_throws _ _ _ _ hlocator)
  obtain ⟨session, -, rfl⟩ := resolving_ok hlocator
  obtain ⟨haccept, rfl⟩ := Prod.mk.inj h
  refine ⟨locator, _, rfl, rfl, ?_⟩
  rcases accept_error haccept with hload | ⟨found, hload, hkey, rfl⟩
  · exact .inr hload
  · cases hchain
    exact .inl ⟨found, hload, hkey, rfl⟩

/-- An action that fails by itself for a cycle is an inclusion that the source answers with a key of
the chain, or with the failure. -/
theorem Alone.cycle {action : Action} {w v : Walk σ} {e : LaunchError}
    (h : Alone host env source action w (.error e) v) {chain : List String}
    (hchain : e.cause = .includeCycle chain) :
    ∃ i answer, action = .inclusion i ∧ Answers host env source i w answer ∧
      ((∃ found, answer = .ok found ∧ found.key ∈ w.chain ∧ chain = w.chain ++ [found.key]) ∨
        answer = .error e) := by
  -- Nothing is asked of what would compose a description, so it may as well do nothing.
  have hrun := h fun _ => pure ()
  have hother : ∀ {α : Type} {c : Composing σ α}, Throws LaunchError.NotCycle c →
      ∀ {u u' : Walk σ}, c.run u ≠ (.error e, u') :=
    fun hc _ _ hu => hc _ _ _ hu ⟨chain, hchain⟩
  rw [runAction_eq, run_bind] at hrun
  rcases hholds : (decides host env action).run w with ⟨e' | holds, w₁⟩ <;> rw [hholds] at hrun
  · cases hrun
    exact absurd hholds (hother (decides_throws action))
  cases holds with
  | false => cases hrun
  | true =>
    change (act host env source _ action).run w₁ = _ at hrun
    cases action with
    | argument a => exact absurd hrun (hother (declare_throws a))
    | process p =>
      exact absurd hrun (hother ((resolveProcess_throws p).bind fun _ _ _ _ h => by cases h))
    | inclusion i =>
      have hw₁ : w₁.chain = w.chain := by rw [decides_ok hholds]
      rw [act, run_bind] at hrun
      rcases hl : (loadInclusion host env source i).run w₁ with ⟨e' | loaded, w₂⟩ <;>
        rw [hl] at hrun
      · cases hrun
        obtain ⟨locator, answer, hlocator, hload, hanswer⟩ := loadInclusion_cycle hl hchain
        rw [hw₁] at hload hanswer
        exact ⟨i, answer, rfl, ⟨w₁, _, locator, hholds, hlocator, hload⟩, hanswer⟩
      · have hoverrides : Throws LaunchError.NotCycle (i.overrides.forM (setOverride host env) >>=
            fun _ => (pure () : Composing σ Unit)) :=
          (Throws.forM fun b _ => setOverride_throws b).bind fun _ => .pure ()
        exact absurd hrun (hother (within_throws hoverrides))

end Compose

/-- A chain of keys that goes round: each one is related to the next, none comes twice before the
last one, and the last one is among those before it. -/
structure GoesRound (related : String → String → Prop) (chain : List String) : Prop where
  links : chain.IsChain related
  back : ∃ before last, chain = before ++ [last] ∧ before.Nodup ∧ last ∈ before

/-- A key of a chain that goes round leads back to itself. -/
theorem GoesRound.cyclic {related : String → String → Prop} {chain : List String}
    (h : GoesRound related chain) : ∃ key ∈ chain, Relation.TransGen related key key := by
  obtain ⟨before, last, rfl, -, hlast⟩ := h.back
  obtain ⟨outer, inner, rfl⟩ := List.append_of_mem hlast
  have hlinks : (last :: (inner ++ [last])).IsChain related := by
    have hall : (outer ++ last :: (inner ++ [last])).IsChain related := by simpa using h.links
    exact hall.right_of_append
  obtain ⟨next, rest, hnext⟩ :=
    List.exists_cons_of_ne_nil (List.append_ne_nil_of_right_ne_nil inner (List.cons_ne_nil last []))
  rw [hnext, List.isChain_cons_cons] at hlinks
  refine ⟨last, by simp, .head' hlinks.1
    (List.relationReflTransGen_of_exists_isChain_cons rest hlinks.2 ?_)⟩
  simp [← hnext]

namespace Composition

open Compose

section

variable (host : Host σ) (env : Environment) (source : Source) (entry : Entry)
  (overrides : Bindings) (machine : σ)

/-- At a moment a description is being composed that was loaded under a key. -/
inductive Under : String → Moment σ → Prop
  | entry {locator : String} {loaded : Loaded} : entry = .located locator →
      source.load (host.files machine) locator none = .ok loaded →
      Under loaded.key
        (start host source loaded.description (some loaded.key) overrides (.fresh machine))
  | included {nesting : Nat} {i : Inclusion} {rest : Description} {w v : Walk σ} {loaded : Loaded} :
      Reaches host env source entry overrides machine ⟨nesting + 1, .inclusion i :: rest, w⟩ →
      Enters host env source i w loaded v →
      Under loaded.key ⟨nesting, loaded.description, v⟩
  | next {key : String} {nesting : Nat} {action : Action} {rest : Description} {w v : Walk σ} :
      Under key ⟨nesting, action :: rest, w⟩ →
      (runAction host env source (nested host env source nesting) action).run w = (.ok (), v) →
      Under key ⟨nesting, rest, v⟩

/-- A description that is loaded under one key has an inclusion which composing comes to: its
conditions hold, and the source answers it with a description under another key. -/
def Includes (key target : String) : Prop :=
  ∃ nesting i rest w found,
    Under host env source entry overrides machine key ⟨nesting, .inclusion i :: rest, w⟩ ∧
      Answers host env source i w (.ok found) ∧ found.key = target

/-- The source answers with a failure, for the entry or for an inclusion that composing comes to and
whose conditions hold. -/
inductive Refused (e : LaunchError) : Prop
  | entry {locator : String} : entry = .located locator →
      source.load (host.files machine) locator none = .error e → Refused e
  | inclusion {nesting : Nat} {i : Inclusion} {rest : Description} {w : Walk σ} :
      Reaches host env source entry overrides machine ⟨nesting, .inclusion i :: rest, w⟩ →
      Answers host env source i w (.error e) → Refused e

end

variable {host : Host σ} {env : Environment} {source : Source} {entry : Entry}
  {overrides : Bindings} {machine : σ}

/-- The last key of the chain belongs to the description that is being composed. -/
theorem Reaches.under {m : Moment σ} (h : Reaches host env source entry overrides machine m)
    {key : String} (hkey : m.walk.chain.getLast? = some key) :
    Under host env source entry overrides machine key m := by
  obtain ⟨description, first, hfind, h⟩ := h
  induction h generalizing key with
  | refl =>
    rcases Entry.find_ok hfind with rfl | ⟨locator, loaded, hentry, hload, rfl, rfl⟩
    · cases hkey
    · cases hkey
      exact .entry hentry hload
  | next _ ha ih =>
    rw [(frame_of_runAction ha).chain] at hkey
    exact (ih hkey).next ha
  | into hr he _ =>
    rw [he.chain, List.getLast?_concat] at hkey
    cases hkey
    exact .included ⟨description, first, hfind, hr⟩ he

/-- The key of an answer stands at the end of a linked chain. -/
theorem Reaches.isChain_concat {nesting : Nat} {i : Inclusion} {rest : Description} {w : Walk σ}
    (h : Reaches host env source entry overrides machine ⟨nesting, .inclusion i :: rest, w⟩)
    {found : Loaded} (ha : Answers host env source i w (.ok found))
    (hlinks : w.chain.IsChain (Includes host env source entry overrides machine)) :
    (w.chain ++ [found.key]).IsChain (Includes host env source entry overrides machine) := by
  refine hlinks.append (.singleton _) fun key hkey target htarget => ?_
  obtain rfl : found.key = target := by simpa using htarget
  exact ⟨nesting, i, rest, w, found, h.under hkey, ha, rfl⟩

/-- Each key on the chain is that of a description which includes the next one. -/
theorem Reaches.isChain {m : Moment σ} (h : Reaches host env source entry overrides machine m) :
    m.walk.chain.IsChain (Includes host env source entry overrides machine) := by
  obtain ⟨description, first, hfind, h⟩ := h
  refine h.chain_of (P := fun _ chain => chain.IsChain _) ?_ fun hr hlets ih =>
    Reaches.isChain_concat ⟨description, first, hfind, hr⟩ hlets.answers.1 ih
  cases first with
  | none => exact .nil
  | some key => exact .singleton key

theorem Refused.reports {e : LaunchError}
    (h : Refused host env source entry overrides machine e) : source.Reports e := by
  cases h with
  | entry _ hload => exact ⟨_, _, _, hload⟩
  | inclusion _ ha =>
    obtain ⟨_, _, _, -, -, hload⟩ := ha
    exact ⟨_, _, _, hload⟩

/-- A launch that fails for a cycle reports one: keys of which each belongs to a description that
includes the next one, that come back to one of them, and that begin with the key of the entry. Only
where the source itself has answered with such a failure it comes from there; descriptions held in
memory and files never do. -/
theorem reported_cycle_closes {e : LaunchError} {chain : List String}
    (h : (ofEntry host env source entry overrides (.fresh machine)).1 = .error e)
    (hchain : e.root = .bare (.includeCycle chain)) :
    (GoesRound (Includes host env source entry overrides machine) chain ∧
      (∃ key ∈ chain,
        Relation.TransGen (Includes host env source entry overrides machine) key key) ∧
      ∀ locator loaded, entry = .located locator →
        source.load (host.files machine) locator none = .ok loaded →
        chain.head? = some loaded.key) ∨
    ∃ refusal, Refused host env source entry overrides machine refusal ∧
      refusal.root = .bare (.includeCycle chain) ∧ source.IsOther := by
  have hother : ∀ {refusal : LaunchError}, refusal.cause = .includeCycle chain →
      Refused host env source entry overrides machine refusal →
      ∃ refusal, Refused host env source entry overrides machine refusal ∧
        refusal.root = .bare (.includeCycle chain) ∧ source.IsOther := fun hcause hrefused =>
    ⟨_, hrefused, by rw [LaunchError.root_eq, hcause],
      hrefused.reports.isOther fun hloading => hloading.notCycle ⟨chain, hcause⟩⟩
  rw [LaunchError.root_eq, LaunchError.bare.injEq] at hchain
  rcases exists_fault h with hfind | ⟨m, action, raised, hm, hraised, rfl⟩
  · obtain ⟨locator, hentry, hload⟩ := Entry.find_error hfind
    exact .inr (hother hchain (.entry hentry hload))
  · rw [LaunchError.cause_inAction] at hchain
    cases hraised with
    | tooDeep _ => cases hchain
    | alone halone =>
      obtain ⟨i, answer, rfl, ha, ⟨found, rfl, hkey, rfl⟩ | rfl⟩ := halone.cycle hchain
      · have hround : GoesRound (Includes host env source entry overrides machine) _ :=
          ⟨hm.isChain_concat ha hm.isChain, _, _, rfl, hm.chain_nodup, hkey⟩
        refine .inl ⟨hround, hround.cyclic, fun locator loaded hentry hload => ?_⟩
        rw [List.head?_append, hm.first_key hentry hload]
        rfl
      · exact .inr (hother hchain (.inclusion hm ha))

/-- One description is included twice, side by side, and then two that include each other. -/
def twistedDescriptions : List (String × Description) :=
  [("main", [.inclusion { locator := [.text "leaf"] }, .inclusion { locator := [.text "leaf"] },
      .inclusion { locator := [.text "ping"] }]),
    ("leaf", [.process { executable := [.text "driver"] }]),
    ("ping", [.inclusion { locator := [.text "leaf"] },
      .inclusion { locator := [.command [.text "pong"]] }]),
    ("pong", [.inclusion { locator := [.text "ping"] }])]

theorem twisted_cycle_closes :
    ∃ e, (ofEntry Host.echo {} (.memory twistedDescriptions) (.located "main") [] (.fresh ())).1 =
        .error e ∧ e.root = .bare (.includeCycle ["main", "ping", "pong", "ping"]) ∧
      GoesRound (Includes Host.echo {} (.memory twistedDescriptions) (.located "main") [] ())
        ["main", "ping", "pong", "ping"] := by
  have hfails := failure?_eq_some.1 (show failure? (ofEntry Host.echo {}
      (.memory twistedDescriptions) (.located "main") [] (.fresh ())).1 =
        some (.action "include 'ping'" (.bare (.includeCycle ["main", "ping", "pong", "ping"]))) by
      decide +kernel)
  rcases reported_cycle_closes hfails rfl with ⟨hround, -, -⟩ | ⟨-, -, -, -, hmemory⟩
  · exact ⟨_, hfails, rfl, hround⟩
  · exact absurd rfl (hmemory twistedDescriptions)

/-- A source that has no description, and answers with a cycle of one key. -/
def rumour : Source where
  load _ locator _ := .error (.bare (.includeCycle [locator]))
  nesting _ := 0

/-- What a source makes up is reported as it is. -/
theorem rumoured_cycle_open : ¬ ∀ (source : Source) (entry : Entry) (e : LaunchError)
    (chain : List String), (ofEntry Host.echo {} source entry [] (.fresh ())).1 = .error e →
      e.root = .bare (.includeCycle chain) →
      GoesRound (Includes Host.echo {} source entry [] ()) chain := by
  intro hclaim
  have hfails := failure?_eq_some.1 (show failure? (ofEntry Host.echo {} rumour
      (.described [.inclusion { locator := [.text "ghost"] }]) [] (.fresh ())).1 =
        some (.action "include 'ghost'" (.bare (.includeCycle ["ghost"]))) by decide +kernel)
  obtain ⟨before, last, hsplit, -, hlast⟩ := (hclaim _ _ _ _ hfails rfl).back
  obtain rfl : before = [] := by simpa using congrArg List.length hsplit
  cases hlast

end Composition

end LaunchPlan
