import LaunchPlan.Proofs.Chains

/-!
# Composing ends

How descriptions are composed sets no bound on how deep they are nested. An outcome is given by rules
that follow the actions, and an inclusion asks for the outcome of the description that it leads into.
Every run that allows enough nesting has the outcome that the rules give, so there is at most one.
While a source has finitely many keys there is one: no key comes twice on a chain, and a description
that is included has one key less left below it.
-/

namespace LaunchPlan

open Computing

variable {σ : Type}

namespace Compose

open Walk

variable (host : Host σ) (env : Environment) (source : Source)

/-- Composing a description ends, however deep descriptions are nested in it. -/
inductive Ends : Description → Walk σ → Except LaunchError Unit → Walk σ → Prop
  | done {w : Walk σ} : Ends [] w (.ok ()) w
  | next {action : Action} {rest : Description} {w u v : Walk σ} {result : Except LaunchError Unit} :
      Alone host env source action w (.ok ()) u → Ends rest u result v →
      Ends (action :: rest) w result v
  | stop {action : Action} {rest : Description} {w v : Walk σ} {e : LaunchError} :
      Alone host env source action w (.error e) v →
      Ends (action :: rest) w (.error (e.inAction action.identity)) v
  | through {i : Inclusion} {rest : Description} {loaded : Loaded} {w u u' v : Walk σ}
      {result : Except LaunchError Unit} :
      Enters host env source i w loaded u → Ends loaded.description u (.ok ()) u' →
      Ends rest u'.left result v → Ends (.inclusion i :: rest) w result v
  | stopInside {i : Inclusion} {rest : Description} {loaded : Loaded} {w u v : Walk σ}
      {e : LaunchError} :
      Enters host env source i w loaded u → Ends loaded.description u (.error e) v →
      Ends (.inclusion i :: rest) w (.error (e.inAction (Action.inclusion i).identity)) v.left

variable {host env source}

/-- Every run that allows enough nesting has the outcome. -/
theorem Ends.run {description : Description} {w v : Walk σ} {result : Except LaunchError Unit}
    (h : Ends host env source description w result v) :
    ∃ enough, ∀ nesting, enough ≤ nesting →
      (Compose.run host env source nesting description).run w = (result, v) := by
  induction h with
  | done =>
    refine ⟨0, fun nesting _ => ?_⟩
    rw [run_eq]
    rfl
  | next ha _ ih =>
    obtain ⟨enough, hrest⟩ := ih
    refine ⟨enough, fun nesting hn => ?_⟩
    rw [run_cons_ok (ha _)]
    exact hrest nesting hn
  | stop ha => exact ⟨0, fun nesting _ => run_cons_error (ha _)⟩
  | @through i rest loaded w u u' v result he _ _ ihin ihrest =>
    obtain ⟨enough, hin⟩ := ihin
    obtain ⟨more, hrest⟩ := ihrest
    -- One more than the included description needs, and as much as the rest needs.
    refine ⟨max (enough + 1) more, fun nesting hn => ?_⟩
    obtain ⟨below, rfl⟩ : ∃ below, nesting = below + 1 := Nat.exists_eq_add_of_le' (by omega)
    have haction : (runAction host env source (nested host env source (below + 1))
        (.inclusion i)).run w = (.ok (), u'.left) := by
      rw [runAction_inclusion he, nested, hin below (by omega)]
    rw [run_cons_ok haction]
    exact hrest _ (by omega)
  | @stopInside i rest loaded w u v e he _ ih =>
    obtain ⟨enough, hin⟩ := ih
    refine ⟨enough + 1, fun nesting hn => ?_⟩
    obtain ⟨below, rfl⟩ : ∃ below, nesting = below + 1 := Nat.exists_eq_add_of_le' (by omega)
    refine run_cons_error ?_
    rw [runAction_inclusion he, nested, hin below (by omega)]

theorem Ends.unique {description : Description} {w v v' : Walk σ}
    {result result' : Except LaunchError Unit} (h : Ends host env source description w result v)
    (h' : Ends host env source description w result' v') : result = result' ∧ v = v' := by
  obtain ⟨enough, hrun⟩ := h.run
  obtain ⟨enough', hrun'⟩ := h'.run
  have heq := (hrun _ (Nat.le_max_left enough enough')).symm.trans (hrun' _ (Nat.le_max_right _ _))
  exact Prod.mk.inj heq

/-- A run that has room for the keys outside its chain ends as the rules say. -/
theorem Ends.of_run {machine : σ} {keys : List String} (hkeys : ∀ m, host.Leads env machine m →
      source.KeysIn (host.files m) keys) {nesting : Nat} {description : Description} {w v : Walk σ}
    {result : Except LaunchError Unit} (hw : host.Leads env machine w.session.machine)
    (hroom : Room keys nesting w.chain)
    (h : (Compose.run host env source nesting description).run w = (result, v)) :
    Ends host env source description w result v := by
  -- The measure: the nesting that is left, which a key off the chain lowers, then the actions left.
  induction nesting using Nat.strongRecOn generalizing description w v result with
  | ind nesting ihnesting =>
  induction description generalizing w with
  | nil =>
    rw [run_eq] at h
    cases h
    exact .done
  | cons action rest ihrest =>
    rcases haction : (runAction host env source (nested host env source nesting) action).run w
      with ⟨r, u⟩
    have hframe := frame_of_runAction haction
    have hled : host.Leads env machine u.session.machine := .trans hw hframe.session
    rcases alone_or_enters host env source action w with
      ⟨r', u', halone⟩ | ⟨i, loaded, entered, rfl, he⟩
    · obtain ⟨rfl, rfl⟩ : r' = r ∧ u' = u := Prod.mk.inj ((halone _).symm.trans haction)
      cases r' with
      | ok _ =>
        rw [run_cons_ok haction] at h
        exact .next halone (ihrest hled (hframe.chain ▸ hroom) h)
      | error e =>
        rw [run_cons_error haction] at h
        cases h
        exact .stop halone
    · obtain ⟨hanswers, hnew⟩ := he.letsIn.answers
      have hkey : loaded.key ∈ keys := hanswers.key_mem fun m hm => hkeys m (.trans hw hm)
      obtain ⟨below, rfl, hbelow⟩ := hroom.enter hkey hnew
      rcases hrun : (Compose.run host env source below loaded.description).run entered
        with ⟨r', inner⟩
      have hin : Ends host env source loaded.description entered r' inner :=
        ihnesting below (Nat.lt_succ_self below) (.trans hw (he.session (host.output_led env)))
          (he.chain ▸ hbelow) hrun
      have hdone := haction
      rw [runAction_inclusion he, nested, hrun] at hdone
      obtain ⟨rfl, rfl⟩ : r' = r ∧ inner.left = u := Prod.mk.inj hdone
      cases r' with
      | ok _ =>
        rw [run_cons_ok haction] at h
        exact .through he hin (ihrest hled (hframe.chain ▸ hroom) h)
      | error e =>
        rw [run_cons_error haction] at h
        cases h
        exact .stopInside he hin

end Compose

namespace Composition

open Compose

/-- What a launch comes to when its outermost description has come to an end. -/
def ofEnd (result : Except LaunchError Unit) (w : Walk σ) :
    Except LaunchError Composition × Session σ :=
  (result.map fun _ => { manifest := ⟨w.processes⟩, arguments := argumentValues w.arguments },
    w.session)

/-- Composing an entry ends, however deep descriptions are nested. -/
inductive Ends (host : Host σ) (env : Environment) (source : Source) (entry : Entry)
    (overrides : Bindings) (session : Session σ) :
    Except LaunchError Composition × Session σ → Prop
  | notFound {e : LaunchError} :
      entry.find source (host.files session.machine) = .error e →
      Ends host env source entry overrides session (.error e, session)
  | composed {description : Description} {key : Option String} {result : Except LaunchError Unit}
      {w : Walk σ} :
      entry.find source (host.files session.machine) = .ok (description, key) →
      Compose.Ends host env source description
        { arguments := .ofOverrides overrides, chain := key.toList, session } result w →
      Ends host env source entry overrides session (ofEnd result w)

variable {host : Host σ} {env : Environment} {source : Source} {entry : Entry}
  {overrides : Bindings} {machine : σ}

theorem Ends.unique {session : Session σ}
    {outcome outcome' : Except LaunchError Composition × Session σ}
    (h : Ends host env source entry overrides session outcome)
    (h' : Ends host env source entry overrides session outcome') : outcome = outcome' := by
  cases h with
  | notFound hfind =>
    cases h' with
    | notFound hfind' =>
      rw [hfind] at hfind'
      cases hfind'
      rfl
    | composed hfind' _ =>
      rw [hfind] at hfind'
      cases hfind'
  | composed hfind hends =>
    cases h' with
    | notFound hfind' =>
      rw [hfind] at hfind'
      cases hfind'
    | composed hfind' hends' =>
      rw [hfind] at hfind'
      cases hfind'
      obtain ⟨rfl, rfl⟩ := hends.unique hends'
      rfl

section

variable {keys : List String} (hkeys : ∀ m, host.Leads env machine m →
  source.KeysIn (host.files m) keys)

include hkeys

/-- The description of an entry ends as a run does that has room for all keys. -/
theorem ends_of_run {description : Description} {key : Option String}
    (hfind : entry.find source (host.files machine) = .ok (description, key)) {nesting : Nat}
    (hnesting : keys.length ≤ nesting) {result : Except LaunchError Unit} {v : Walk σ}
    (hrun : (Compose.run host env source nesting description).run
      { arguments := .ofOverrides overrides, chain := key.toList, session := .fresh machine } =
        (result, v)) :
    Ends host env source entry overrides (.fresh machine) (ofEnd result v) :=
  .composed hfind (.of_run hkeys .refl (.of_length hnesting key.toList) hrun)

theorem exists_ends (entry : Entry) (overrides : Bindings) :
    ∃ outcome, Ends host env source entry overrides (.fresh machine) outcome := by
  cases hfind : entry.find source (host.files machine) with
  | error cause => exact ⟨_, .notFound hfind⟩
  | ok found => exact ⟨_, ends_of_run hkeys hfind (Nat.le_refl _) rfl⟩

/-- An entry is composed as the rules say if the source allows as much nesting as it has keys. -/
theorem ends_ofEntry (hnesting : keys.length ≤ source.nesting (host.files machine)) (entry : Entry)
    (overrides : Bindings) :
    Ends host env source entry overrides (.fresh machine)
      (ofEntry host env source entry overrides (.fresh machine)) := by
  rw [ofEntry_eq, show (Session.fresh machine).machine = machine from rfl]
  cases hfind : entry.find source (host.files machine) with
  | error cause => exact .notFound hfind
  | ok found =>
    dsimp only
    rw [ofDescription_eq]
    exact ends_of_run hkeys hfind hnesting rfl

end

/-- Composing an entry ends, with a manifest or a failure, whenever running commands never makes the
source give more than finitely many keys: with one outcome, and in the way that the rules say if the
source allows enough nesting. Descriptions held in memory and files that stay allow it. No key comes
twice on a chain, so that descriptions are never nested deeper than there are keys. -/
theorem composing_ends (host : Host σ) (env : Environment) (entry : Entry) (overrides : Bindings)
    (machine : σ) :
    (∀ (source : Source) (keys : List String),
      (∀ m, host.Leads env machine m → source.KeysIn (host.files m) keys) →
        (∃! outcome, Ends host env source entry overrides (.fresh machine) outcome) ∧
        (keys.length ≤ source.nesting (host.files machine) →
          Ends host env source entry overrides (.fresh machine)
            (ofEntry host env source entry overrides (.fresh machine))) ∧
        ∀ chain, Stands host env source entry overrides machine chain →
          chain.Nodup ∧ chain.length ≤ keys.length) ∧
    (∀ descriptions, Ends host env (.memory descriptions) entry overrides (.fresh machine)
      (ofEntry host env (.memory descriptions) entry overrides (.fresh machine))) ∧
    ((∀ m, host.Leads env machine m → host.files m = host.files machine) →
      Ends host env .files entry overrides (.fresh machine)
        (ofEntry host env .files entry overrides (.fresh machine))) := by
  refine ⟨fun source keys hkeys => ⟨?_, fun hnesting => ?_, fun chain hchain => ?_⟩,
    fun descriptions => ?_, fun hstay => ?_⟩
  · obtain ⟨outcome, hends⟩ := exists_ends hkeys entry overrides
    exact ⟨outcome, hends, fun other hother => hother.unique hends⟩
  · exact ends_ofEntry hkeys hnesting entry overrides
  · exact ⟨hchain.nodup, hchain.nodup.length_le_of_subset (hchain.subset hkeys)⟩
  · exact ends_ofEntry (fun m _ => Source.memory_keysIn descriptions _)
      (Source.memory_nesting descriptions _) entry overrides
  · refine ends_ofEntry (fun m hm => ?_) (Source.files_nesting (host.files machine)) entry overrides
    rw [hstay m hm]
    exact Source.files_keysIn (host.files machine)

/-- A machine with a launch file that includes itself, on which every command prints its own line. -/
def ringHost : Host Unit where
  run _ line machine := (.ok line, machine)
  files _ := { nodes := [(["ring.xml"],
    .file "<launch><include file=\"ring.xml\"/></launch>".toUTF8 0)] }

/-- Two descriptions that include each other, the first by what a command prints, the second by what
the first one sets. -/
def ringDescriptions : List (String × Description) :=
  [("ping", [.inclusion
      { locator := [.command [.text "pong"]], overrides := [("back", [.text "ping"])] }]),
    ("pong", [.inclusion { locator := [.argument "back"] }])]

theorem ring_ends :
    (∃! outcome, Ends ringHost {} (.memory ringDescriptions) (.located "ping") [] (.fresh ())
      outcome) ∧
    (∃ session, Ends ringHost {} (.memory ringDescriptions) (.located "ping") [] (.fresh ())
      (.error (.action "include '$(...)'" (.bare (.includeCycle ["ping", "pong", "ping"]))),
        session)) ∧
    (∀ chain, Stands ringHost {} (.memory ringDescriptions) (.located "ping") [] () chain →
      chain.Nodup ∧ chain.length ≤ 2) ∧
    Ends ringHost {} .files (.located "ring.xml") [] (.fresh ())
      (ofEntry ringHost {} .files (.located "ring.xml") [] (.fresh ())) := by
  obtain ⟨hfinite, -, -⟩ := composing_ends ringHost {} (.located "ping") [] ()
  obtain ⟨-, -, hfiles⟩ := composing_ends ringHost {} (.located "ring.xml") [] ()
  obtain ⟨hunique, hends, hchains⟩ := hfinite (.memory ringDescriptions) ["ping", "pong"]
    fun _ _ => Source.memory_keysIn ringDescriptions _
  exact ⟨hunique, ⟨_, hends (Nat.le_refl 2)⟩, hchains, hfiles fun _ _ => rfl⟩

end Composition

end LaunchPlan
