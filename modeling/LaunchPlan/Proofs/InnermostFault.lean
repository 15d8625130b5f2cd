import LaunchPlan.Proofs.IncludeCycles
import LaunchPlan.Proofs.Termination

/-!
# The action at fault

A launch that fails has come to one action that fails by itself, however deep its description is
nested. The failure is one that this action raises on its own, in its conditions, in what it
declares, in what it starts, or on the way into a description, and it carries the name of this action
and of no inclusion around it. Only an entry that cannot be loaded fails without an action. Where a
source answers an inclusion with a failure that names actions already, these are the ones that stay.
-/

namespace LaunchPlan

open Computing

variable {σ : Type}

/-- How a failure to resolve an expression is reported: an argument without a value is a failure of
the launch. -/
inductive Reported : SubstitutionError → LaunchCause → Prop
  | unresolved (name : String) : Reported (.undefinedVariable name) (.unresolvedArgument name)
  | resolution {fault : SubstitutionError} : (∀ name, fault ≠ .undefinedVariable name) →
      Reported fault (.resolution fault)

theorem ofResolution_reported (fault : SubstitutionError) :
    ∃ cause, LaunchError.ofResolution fault = .bare cause ∧ Reported fault cause := by
  cases fault with
  | undefinedVariable name => exact ⟨_, rfl, .unresolved name⟩
  | _ => exact ⟨_, rfl, .resolution fun name h => by cases h⟩

namespace Compose

open Walk

section

variable (host : Host σ) (env : Environment) (source : Source)

/-- Resolving an expression fails in a walk, and is reported as this cause. -/
def Unresolved (expression : List Substitution) (w : Walk σ) (cause : LaunchCause) : Prop :=
  ∃ fault session, (Substitution.resolveList host env w.arguments expression).run w.session =
    (.error fault, session) ∧ Reported fault cause

/-- What an action raises on its own, in the walk that has come to it. Where its conditions hold,
`u` is the walk after them. -/
inductive OwnFault : Action → Walk σ → LaunchCause → Prop
  | condition {action : Action} {w : Walk σ} {fault : SubstitutionError} {session : Session σ}
      {cause : LaunchCause} :
      (Condition.allHold host env w.arguments action.conditions).run w.session =
        (.error fault, session) → Reported fault cause → OwnFault action w cause
  | default {a : ArgumentAction} {w u : Walk σ} {expression : List Substitution}
      {cause : LaunchCause} : (decides host env (.argument a)).run w = (.ok true, u) →
      a.default = some expression → Unresolved host env expression u cause →
      OwnFault (.argument a) w cause
  | duplicate {a : ArgumentAction} {w u : Walk σ} :
      (decides host env (.argument a)).run w = (.ok true, u) →
      u.arguments.isDeclared a.name = true → OwnFault (.argument a) w (.duplicateArgument a.name)
  | choice {a : ArgumentAction} {w u u' : Walk σ} {default : Option String}
      {choices : List String} {value : String} :
      (decides host env (.argument a)).run w = (.ok true, u) →
      (resolveText? host env a.default).run u = (.ok default, u') → a.choices = some choices →
      (u'.arguments.push (a.declaration default)).lookup a.name = some value → value ∉ choices →
      OwnFault (.argument a) w (.invalidChoice a.name value choices)
  | template {p : ProcessTemplate} {w u u' : Walk σ} {expression : List Substitution}
      {cause : LaunchCause} : (decides host env (.process p)).run w = (.ok true, u) →
      expression ∈ p.expressions ++ p.paramFiles → Resolved (Session.Led host env) u u' →
      Unresolved host env expression u' cause → OwnFault (.process p) w cause
  | parameterFile {p : ProcessTemplate} {w u u' : Walk σ} {file : List Substitution}
      {path node : String} {fault : ParseError} :
      (decides host env (.process p)).run w = (.ok true, u) → file ∈ p.paramFiles →
      Resolved (Session.Led host env) u u' →
      Parameters.load (host.files u'.session.machine) path (some node) = .error fault →
      OwnFault (.process p) w (.parse path fault)
  | locator {i : Inclusion} {w u : Walk σ} {cause : LaunchCause} :
      (decides host env (.inclusion i)).run w = (.ok true, u) →
      Unresolved host env i.locator u cause → OwnFault (.inclusion i) w cause
  | load {i : Inclusion} {w : Walk σ} {cause : LaunchCause} :
      Answers host env source i w (.error (.bare cause)) → OwnFault (.inclusion i) w cause
  | cycle {i : Inclusion} {w : Walk σ} {found : Loaded} :
      Answers host env source i w (.ok found) → found.key ∈ w.chain →
      OwnFault (.inclusion i) w (.includeCycle (w.chain ++ [found.key]))
  | override {i : Inclusion} {w w₁ w₂ u : Walk σ} {loaded : Loaded} {name : String}
      {before after : List (String × List Substitution)} {expression : List Substitution}
      {cause : LaunchCause} : (decides host env (.inclusion i)).run w = (.ok true, w₁) →
      (loadInclusion host env source i).run w₁ = (.ok loaded, w₂) →
      i.overrides = before ++ (name, expression) :: after →
      (before.forM (setOverride host env)).run (w₂.entered loaded.key) = (.ok (), u) →
      Unresolved host env expression u cause → OwnFault (.inclusion i) w cause

/-- Composing a description from a walk comes to an action in a walk, which may be one of a
description that is included. -/
inductive Comes : Description → Walk σ → Action → Walk σ → Prop
  | here {action : Action} {rest : Description} {w : Walk σ} : Comes (action :: rest) w action w
  | next {action b : Action} {rest : Description} {w u v : Walk σ} :
      Alone host env source action w (.ok ()) u → Comes rest u b v → Comes (action :: rest) w b v
  | through {i : Inclusion} {b : Action} {rest : Description} {loaded : Loaded}
      {w u u' v : Walk σ} : Enters host env source i w loaded u →
      Ends host env source loaded.description u (.ok ()) u' → Comes rest u'.left b v →
      Comes (.inclusion i :: rest) w b v
  | into {i : Inclusion} {b : Action} {rest : Description} {loaded : Loaded} {w u v : Walk σ} :
      Enters host env source i w loaded u → Comes loaded.description u b v →
      Comes (.inclusion i :: rest) w b v

end

variable {host : Host σ} {env : Environment} {source : Source}

theorem resolveText_error {expression : List Substitution} {w v : Walk σ} {e : LaunchError}
    (h : (resolveText host env expression).run w = (.error e, v)) :
    ∃ cause, e = .bare cause ∧ Unresolved host env expression w cause := by
  obtain ⟨fault, session, hfault, rfl, -⟩ := resolving_error h
  obtain ⟨cause, hcause, hreported⟩ := ofResolution_reported fault
  exact ⟨cause, hcause, fault, session, hfault, hreported⟩

theorem declare_fault {a : ArgumentAction} {w u v : Walk σ} {e : LaunchError}
    (hholds : (decides host env (.argument a)).run w = (.ok true, u))
    (h : (declare host env a).run u = (.error e, v)) :
    ∃ cause, e = .bare cause ∧ OwnFault host env source (.argument a) w cause := by
  rw [declare_eq] at h
  rcases error_of_bind h with hdefault | ⟨default, u', hdefault, hdeclare⟩
  · cases hexpression : a.default with
    | none =>
      rw [hexpression] at hdefault
      cases hdefault
    | some expression =>
      rw [hexpression, resolveText?, run_map] at hdefault
      rcases hrun : (resolveText host env expression).run u with ⟨e' | _, v'⟩ <;>
        rw [hrun] at hdefault <;> cases hdefault
      obtain ⟨cause, rfl, hunresolved⟩ := resolveText_error hrun
      exact ⟨cause, rfl, .default hholds hexpression hunresolved⟩
  · have hsame : u'.arguments = u.arguments := by
      rw [((resolveText?_keeps (host.output_led env) a.default).of_run hdefault).rest]
    change ((u'.arguments.declare (a.declaration default)).1.mapError _, _) = _ at hdeclare
    cases hd : (u'.arguments.declare (a.declaration default)).1 with
    | ok _ =>
      rw [hd] at hdeclare
      cases hdeclare
    | error cause =>
      rw [hd] at hdeclare
      cases hdeclare
      refine ⟨cause, rfl, ?_⟩
      rcases ArgumentTable.declare_error hd with
        ⟨hdeclared, rfl⟩ | ⟨-, choices, value, hchoices, hvalue, hmem, rfl⟩
      · exact .duplicate hholds (hsame ▸ hdeclared)
      · exact .choice hholds hdefault hchoices hvalue hmem

theorem setFromFile_error {node : String} {done : Bindings × List String}
    {file : List Substitution} {w v : Walk σ} {e : LaunchError}
    (h : (setFromFile host env node done file).run w = (.error e, v)) :
    (∃ cause, e = .bare cause ∧ Unresolved host env file w cause) ∨
      ∃ path fault, e = .bare (.parse path fault) ∧ Resolved (Session.Led host env) w v ∧
        Parameters.load (host.files v.session.machine) path (some node) = .error fault := by
  rcases error_of_bind h with htext | ⟨path, u, htext, hset⟩
  · exact .inl (resolveText_error htext)
  · rw [run_bind_ok (run_currentTree host u)] at hset
    cases hload : Parameters.load (host.files u.session.machine) path (some node) with
    | ok parameters =>
      rw [hload] at hset
      cases hset
    | error fault =>
      rw [hload] at hset
      cases hset
      have hu := (resolveText_keeps (host.output_led env) file).of_run htext
      exact .inr ⟨path, fault, rfl, hu, hload⟩

theorem process_fault {p : ProcessTemplate} {w u v : Walk σ} {e : LaunchError}
    (hholds : (decides host env (.process p)).run w = (.ok true, u))
    (h : (resolveProcess host env p >>= addProcess).run u = (.error e, v)) :
    ∃ cause, e = .bare cause ∧ OwnFault host env source (.process p) w cause := by
  have hled := host.output_led env
  let Own (e : LaunchError) : Prop :=
    ∃ cause, e = .bare cause ∧ OwnFault host env source (.process p) w cause
  -- Between its expressions a process changes nothing but the session.
  have htext : ∀ expression ∈ p.expressions, ThrowsFrom (Resolved (Session.Led host env)) u Own
      (resolveText host env expression) := fun expression hmem =>
    .of_keeps (resolveText_keeps hled expression) fun u' v e hu herror => by
      obtain ⟨cause, rfl, hunresolved⟩ := resolveText_error herror
      exact ⟨cause, rfl, .template hholds (List.mem_append_left _ hmem) hu hunresolved⟩
  have hfile : ∀ node done, ∀ file ∈ p.paramFiles,
      ThrowsFrom (Resolved (Session.Led host env)) u Own (setFromFile host env node done file) :=
    fun node done file hmem =>
    .of_keeps (setFromFile_keeps hled node done file) fun u' v e hu herror => by
      rcases setFromFile_error herror with
        ⟨cause, rfl, hunresolved⟩ | ⟨path, fault, rfl, hv, hload⟩
      · exact ⟨cause, rfl, .template hholds (List.mem_append_right _ hmem) hu hunresolved⟩
      · exact ⟨_, rfl, .parameterFile hholds hmem (trans_of _ hu hv) hload⟩
  have hprocess := resolveProcess_composes host host ThrowsFrom.composes htext hfile
  rcases error_of_bind h with hresolve | ⟨_, _, -, hadd⟩
  · exact hprocess.throws u v e (refl_of _ u) hresolve
  · cases hadd

/-- The way into a description fails with a failure of the inclusion, or with one that the source has
put into an action. -/
theorem inclusion_fault {i : Inclusion} {w u v : Walk σ} {e : LaunchError}
    (hholds : (decides host env (.inclusion i)).run w = (.ok true, u))
    (h : (act host env source (fun _ => pure ()) (.inclusion i)).run u = (.error e, v)) :
    (∃ cause, e = .bare cause ∧ OwnFault host env source (.inclusion i) w cause) ∨
      ∃ identity inner, e = .action identity inner ∧ Answers host env source i w (.error e) := by
  have hchain : u.chain = w.chain := by rw [decides_ok hholds]
  rcases error_of_bind h with hload | ⟨loaded, u', hload, hwithin⟩
  · rw [loadInclusion_eq] at hload
    rcases error_of_bind hload with hlocator | ⟨locator, u', hlocator, haccept⟩
    · obtain ⟨cause, rfl, hunresolved⟩ := resolveText_error hlocator
      exact .inl ⟨cause, rfl, .locator hholds hunresolved⟩
    have hsame : u'.chain = w.chain := by
      rw [((resolveText_keeps (host.output_led env) i.locator).of_run hlocator).rest]
      exact hchain
    rcases accept_error (congrArg Prod.fst haccept) with hanswer | ⟨found, hanswer, hkey, rfl⟩
    · rw [hsame] at hanswer
      have hanswers : Answers host env source i w (.error e) :=
        ⟨u, u', locator, hholds, hlocator, hanswer⟩
      cases e with
      | bare cause => exact .inl ⟨cause, rfl, .load hanswers⟩
      | action identity inner => exact .inr ⟨identity, inner, rfl, hanswers⟩
    · rw [hsame] at hanswer hkey ⊢
      exact .inl ⟨_, rfl, .cycle ⟨u, u', locator, hholds, hlocator, hanswer⟩ hkey⟩
  · rw [run_within] at hwithin
    have hbody : ((i.overrides.forM (setOverride host env) >>= fun _ => pure ()).run
        (u'.entered loaded.key)).1 = .error e := congrArg Prod.fst hwithin
    rcases error_of_bind (Prod.ext hbody rfl) with hset | ⟨_, _, -, hnone⟩
    · obtain ⟨before, ⟨name, expression⟩, after, u'', hsplit, hbefore, hone⟩ := error_of_forM hset
      rcases error_of_bind hone with hvalue | ⟨_, _, -, hmodify⟩
      · obtain ⟨cause, rfl, hunresolved⟩ := resolveText_error hvalue
        exact .inl ⟨cause, rfl, .override hholds hload hsplit hbefore hunresolved⟩
      · cases hmodify
    · cases hnone

/-- Where an action fails without a description that it includes, the failure is its own and does not
name any action yet, or the source has answered with one that does. -/
theorem Alone.ownFault {action : Action} {w v : Walk σ} {e : LaunchError}
    (h : Alone host env source action w (.error e) v) :
    (∃ cause, e = .bare cause ∧ OwnFault host env source action w cause) ∨
      ∃ i identity inner, action = .inclusion i ∧ e = .action identity inner ∧
        Answers host env source i w (.error e) := by
  -- Nothing is asked of what would compose a description, so it may as well do nothing.
  have hrun := h fun _ => pure ()
  rw [runAction_eq] at hrun
  rcases error_of_bind hrun with hconditions | ⟨holds, u, hholds, hact⟩
  · obtain ⟨fault, session, hfault, rfl, -⟩ := resolving_error hconditions
    obtain ⟨cause, hcause, hreported⟩ := ofResolution_reported fault
    exact .inl ⟨cause, hcause, .condition hfault hreported⟩
  cases holds with
  | false => cases hact
  | true =>
    cases action with
    | argument a => exact .inl (declare_fault hholds hact)
    | process p => exact .inl (process_fault hholds hact)
    | inclusion i =>
      exact (inclusion_fault hholds hact).imp_right fun ⟨identity, inner, he, hanswers⟩ =>
        ⟨i, identity, inner, rfl, he, hanswers⟩

/-- A description that fails comes to an action that fails by itself, and the failure names it. -/
theorem Ends.comes {description : Description} {w v : Walk σ} {e : LaunchError}
    (h : Ends host env source description w (.error e) v) :
    ∃ action u u' raised, Comes host env source description w action u ∧
      Alone host env source action u (.error raised) u' ∧ e = raised.inAction action.identity := by
  generalize hresult : (Except.error e : Except LaunchError Unit) = result at h
  induction h generalizing e with
  | done => cases hresult
  | next halone _ ih =>
    obtain ⟨action, u, u', raised, hcomes, hraised, he⟩ := ih hresult
    exact ⟨action, u, u', raised, .next halone hcomes, hraised, he⟩
  | stop halone =>
    cases hresult
    exact ⟨_, _, _, _, .here, halone, rfl⟩
  | through henters hends _ _ ih =>
    obtain ⟨action, u, u', raised, hcomes, hraised, he⟩ := ih hresult
    exact ⟨action, u, u', raised, .through henters hends hcomes, hraised, he⟩
  | stopInside henters _ ih =>
    cases hresult
    obtain ⟨action, u, u', raised, hcomes, hraised, rfl⟩ := ih rfl
    exact ⟨action, u, u', raised, .into henters hcomes, hraised, LaunchError.inAction_inAction _ _ _⟩

/-- Where a description comes to an action that fails by itself, it fails, and names the action. -/
theorem Comes.ends {description : Description} {w u u' : Walk σ} {action : Action}
    {raised : LaunchError} (h : Comes host env source description w action u)
    (hraised : Alone host env source action u (.error raised) u') :
    ∃ v, Ends host env source description w (.error (raised.inAction action.identity)) v := by
  induction h with
  | here => exact ⟨u', .stop hraised⟩
  | next halone _ ih =>
    obtain ⟨v, hends⟩ := ih hraised
    exact ⟨v, .next halone hends⟩
  | through henters hinside _ ih =>
    obtain ⟨v, hends⟩ := ih hraised
    exact ⟨v, .through henters hinside hends⟩
  | @into i b rest loaded w u v henters _ ih =>
    obtain ⟨v', hends⟩ := ih hraised
    have hstop : Ends host env source (.inclusion i :: rest) w _ v'.left := .stopInside henters hends
    rw [LaunchError.inAction_inAction] at hstop
    exact ⟨v'.left, hstop⟩

end Compose

namespace Composition

open Compose

section

variable (host : Host σ) (env : Environment) (source : Source) (entry : Entry)
  (overrides : Bindings) (machine : σ)

/-- Composing an entry comes to an action in a walk. -/
def Comes (action : Action) (w : Walk σ) : Prop :=
  ∃ description key, entry.find source (host.files machine) = .ok (description, key) ∧
    Compose.Comes host env source description
      (start host source description key overrides (.fresh machine)).walk action w

/-- The failures of an entry: it is not loaded, or composing it comes to an action that raises a
failure on its own, or to an inclusion that the source answers with a failure of some action. -/
inductive FailsWith : LaunchError → Prop
  | notLoaded {locator : String} {e : LaunchError} : entry = .located locator →
      source.load (host.files machine) locator none = .error e → FailsWith e
  | atAction {action : Action} {w v : Walk σ} {cause : LaunchCause} :
      Comes host env source entry overrides machine action w →
      Alone host env source action w (.error (.bare cause)) v →
      OwnFault host env source action w cause → FailsWith (.action action.identity (.bare cause))
  | passedOn {i : Inclusion} {w v : Walk σ} {identity : String} {inner : LaunchError} :
      Comes host env source entry overrides machine (.inclusion i) w →
      Alone host env source (.inclusion i) w (.error (.action identity inner)) v →
      Answers host env source i w (.error (.action identity inner)) →
      FailsWith (.action identity inner)

end

variable {host : Host σ} {env : Environment} {source : Source} {entry : Entry}
  {overrides : Bindings} {machine : σ}

theorem Ends.failsWith {e : LaunchError} {session : Session σ}
    (h : Ends host env source entry overrides (.fresh machine) (.error e, session)) :
    FailsWith host env source entry overrides machine e := by
  generalize houtcome : ((.error e, session) : Except LaunchError Composition × Session σ) = outcome
    at h
  cases h with
  | notFound hfind =>
    cases houtcome
    obtain ⟨locator, hentry, hload⟩ := Entry.find_error hfind
    exact .notLoaded hentry hload
  | @composed description key result w hfind hends =>
    cases result with
    | ok _ => cases houtcome
    | error e' =>
      cases houtcome
      obtain ⟨action, u, u', raised, hcomes, halone, rfl⟩ := hends.comes
      rcases halone.ownFault with ⟨cause, rfl, hown⟩ | ⟨i, identity, inner, rfl, rfl, hanswers⟩
      · exact .atAction ⟨description, key, hfind, hcomes⟩ halone hown
      · exact .passedOn ⟨description, key, hfind, hcomes⟩ halone hanswers

/-- Where composing an entry comes to an action that fails by itself, the launch fails. -/
theorem Comes.ends {action : Action} {w v : Walk σ} {raised : LaunchError}
    (h : Comes host env source entry overrides machine action w)
    (hraised : Alone host env source action w (.error raised) v) :
    ∃ session, Ends host env source entry overrides (.fresh machine)
      (.error (raised.inAction action.identity), session) := by
  obtain ⟨description, key, hfind, hcomes⟩ := h
  obtain ⟨v', hends⟩ := hcomes.ends hraised
  exact ⟨v'.session, .composed hfind hends⟩

theorem FailsWith.ends {e : LaunchError}
    (h : FailsWith host env source entry overrides machine e) :
    ∃ session, Ends host env source entry overrides (.fresh machine) (.error e, session) := by
  cases h with
  | @notLoaded locator _ hentry hload =>
    have hfind : entry.find source (host.files machine) = .error e := by
      rw [hentry, Entry.find, hload]
      rfl
    exact ⟨_, .notFound hfind⟩
  | atAction hcomes halone _ => exact hcomes.ends halone
  | passedOn hcomes halone _ => exact hcomes.ends halone

theorem FailsWith.unique {e e' : LaunchError}
    (h : FailsWith host env source entry overrides machine e)
    (h' : FailsWith host env source entry overrides machine e') : e' = e := by
  obtain ⟨_, h⟩ := h.ends
  obtain ⟨_, h'⟩ := h'.ends
  cases h'.unique h
  rfl

/-- A source of files or of descriptions held in memory never names an action. -/
theorem isOther_of_reports {identity : String} {inner : LaunchError}
    (h : source.Reports (.action identity inner)) : source.IsOther :=
  h.isOther fun hloading => by cases hloading

/-- A failure in an action is the one that the action raised on its own, unless the source has named
the action. -/
theorem FailsWith.inAction {identity : String} {raised : LaunchError}
    (h : FailsWith host env source entry overrides machine (.action identity raised)) :
    (∃ action w cause, Comes host env source entry overrides machine action w ∧
      OwnFault host env source action w cause ∧ identity = action.identity ∧
      raised = .bare cause) ∨ source.IsOther := by
  cases h with
  | notLoaded _ hload => exact .inr (isOther_of_reports ⟨_, _, _, hload⟩)
  | atAction hcomes _ hown => exact .inl ⟨_, _, _, hcomes, hown, rfl, rfl⟩
  | passedOn _ _ hanswers =>
    obtain ⟨_, _, _, -, -, hload⟩ := hanswers
    exact .inr (isOther_of_reports ⟨_, _, _, hload⟩)

/-- A launch fails exactly where its entry is not loaded, or where it comes to an action that raises a
failure on its own; there is one such failure at most. It names that action and no other one, and its
root and exit code are those of the failure raised. Only an entry that is not loaded fails without an
action. A source may answer with a failure that names actions already, which is then passed on as it
is; files and descriptions held in memory never do. -/
theorem failure_names_fault (host : Host σ) (env : Environment) (source : Source) (entry : Entry)
    (overrides : Bindings) (machine : σ) :
    (∀ e, (∃ session, Ends host env source entry overrides (.fresh machine) (.error e, session)) ↔
      FailsWith host env source entry overrides machine e) ∧
    (∀ keys : List String, (∀ m, host.Leads env machine m → source.KeysIn (host.files m) keys) →
      keys.length ≤ source.nesting (host.files machine) →
      ∀ e, (ofEntry host env source entry overrides (.fresh machine)).1 = .error e ↔
        FailsWith host env source entry overrides machine e) ∧
    ∀ e, FailsWith host env source entry overrides machine e →
      (∀ e', FailsWith host env source entry overrides machine e' → e' = e) ∧
      (∀ cause, e = .bare cause → ∃ locator, entry = .located locator ∧
        source.load (host.files machine) locator none = .error e) ∧
      ∀ identity raised, e = .action identity raised →
        e.root = raised.root ∧ e.exitCode = raised.exitCode ∧
        e.message = "In " ++ identity ++ ": " ++ raised.message ∧
        ((∃ action w cause, Comes host env source entry overrides machine action w ∧
          OwnFault host env source action w cause ∧ identity = action.identity ∧
          raised = .bare cause) ∨ source.IsOther) := by
  refine ⟨fun e => ⟨fun ⟨_, h⟩ => h.failsWith, fun h => h.ends⟩, fun keys hkeys hnesting e => ?_,
    fun e h => ⟨fun e' h' => h.unique h', fun cause hbare => ?_, fun identity raised haction => ?_⟩⟩
  · have hends := ends_ofEntry hkeys hnesting entry overrides
    constructor
    · intro he
      have houtcome : ofEntry host env source entry overrides (.fresh machine) =
          (.error e, (ofEntry host env source entry overrides (.fresh machine)).2) :=
        Prod.ext he rfl
      rw [houtcome] at hends
      exact hends.failsWith
    · intro h
      obtain ⟨session, h⟩ := h.ends
      exact congrArg Prod.fst (hends.unique h)
  · cases h with
    | notLoaded hentry hload => exact ⟨_, hentry, hload⟩
    | atAction => cases hbare
    | passedOn => cases hbare
  · subst haction
    exact ⟨rfl, rfl, rfl, h.inAction⟩

/-- Below two inclusions, the second override of a third one asks for an argument that nobody
declares. -/
def craneDescriptions : List (String × Description) :=
  [("main", [.argument { name := "site", default := some [.text "hall"] },
      .inclusion { locator := [.text "crane"] }]),
    ("crane", [.process { executable := [.text "drive"], arguments := [[.argument "site"]] },
      .inclusion
        { locator := [.text "hook"]
          overrides := [("site", [.text "yard"]), ("load", [.argument "site", .argument "mass"])] }]),
    ("hook", [.process { executable := [.argument "load"] }])]

theorem crane_names_fault :
    ∃ e, (ofEntry Host.echo {} (.memory craneDescriptions) (.located "main") [] (.fresh ())).1 =
        .error e ∧
      FailsWith Host.echo {} (.memory craneDescriptions) (.located "main") [] () e ∧
      e = .action "include 'hook'" (.bare (.unresolvedArgument "mass")) ∧
      e.root = .bare (.unresolvedArgument "mass") ∧ e.exitCode = 1 ∧
      ∃ action w cause,
        Comes Host.echo {} (.memory craneDescriptions) (.located "main") [] () action w ∧
        OwnFault Host.echo {} (.memory craneDescriptions) action w cause ∧
        "include 'hook'" = action.identity ∧
        LaunchError.bare (.unresolvedArgument "mass") = .bare cause := by
  obtain ⟨-, hfinite, hnames⟩ := failure_names_fault Host.echo {} (.memory craneDescriptions)
    (.located "main") [] ()
  have hfails := failure?_eq_some.1 (show failure? (ofEntry Host.echo {}
      (.memory craneDescriptions) (.located "main") [] (.fresh ())).1 =
        some (.action "include 'hook'" (.bare (.unresolvedArgument "mass"))) by decide +kernel)
  have hfault := (hfinite ["main", "crane", "hook"]
    (fun _ _ => Source.memory_keysIn craneDescriptions _) (Nat.le_refl 3) _).1 hfails
  obtain ⟨-, -, hlayer⟩ := hnames _ hfault
  obtain ⟨hroot, hexit, -, hown | ⟨-, hmemory⟩⟩ := hlayer _ _ rfl
  · exact ⟨_, hfails, hfault, rfl, hroot, hexit, hown⟩
  · exact absurd rfl (hmemory craneDescriptions)

/-- A source whose descriptions are all on a machine that does not answer. -/
def remote : Source where
  load _ locator _ :=
    .error (.action "catalogue" (.action "mirror" (.bare (.includeNotFound locator "no answer"))))
  nesting _ := 0

/-- The actions that a source names hide the inclusion at fault. -/
theorem remote_fault_hidden : ¬ ∀ (source : Source) (description : Description) (e : LaunchError),
    (ofEntry Host.echo {} source (.described description) [] (.fresh ())).1 = .error e →
      ∃ action w cause, Comes Host.echo {} source (.described description) [] () action w ∧
        OwnFault Host.echo {} source action w cause ∧
        e = .action action.identity (.bare cause) := by
  intro hclaim
  have hfails := failure?_eq_some.1 (show failure? (ofEntry Host.echo {} remote
      (.described [.inclusion { locator := [.text "arm"] }]) [] (.fresh ())).1 =
        some (.action "catalogue" (.action "mirror" (.bare (.includeNotFound "arm" "no answer")))) by
      decide +kernel)
  obtain ⟨_, _, _, -, -, hlayer⟩ := hclaim _ _ _ hfails
  cases (LaunchError.action.inj hlayer).2

end Composition

end LaunchPlan
