import LaunchPlan.Proofs.Frame

/-!
# The moments of a composition

A composition starts from a description that is there or from one that is loaded. On its way it
comes to moments: some actions of a description are left, some more descriptions may be nested, and
the walk is in the scope of the description. From one moment it goes on to the next action, or into
a description that is included.
-/

namespace LaunchPlan

open Computing

/-- A session that keeps outputs and has none yet. -/
def Session.fresh {σ : Type} (machine : σ) : Session σ := { machine, outputs := some [] }

/-- A machine without files on which every command prints its own line. -/
def Host.echo : Host Unit where
  run _ line machine := (.ok line, machine)
  files _ := {}

/-- What a launch is composed from: a description, or what a locator names. -/
inductive Entry
  | described (description : Description)
  | located (locator : String)

/-- The description of an entry, with its key if it is loaded. -/
def Entry.find (source : Source) (tree : Tree) : Entry →
    Except LaunchError (Description × Option String)
  | described description => .ok (description, none)
  | located locator =>
    (source.load tree locator none).map fun loaded => (loaded.description, some loaded.key)

namespace Entry

variable {source : Source} {tree : Tree} {entry : Entry}

/-- An entry is there, or it is loaded under its key. -/
theorem find_ok {description : Description} {key : Option String}
    (h : entry.find source tree = .ok (description, key)) :
    key = none ∨ ∃ locator loaded, entry = .located locator ∧
      source.load tree locator none = .ok loaded ∧ description = loaded.description ∧
      key = some loaded.key := by
  cases entry with
  | described _ =>
    cases h
    exact .inl rfl
  | located locator =>
    rw [find] at h
    cases hload : source.load tree locator none with
    | error e =>
      rw [hload] at h
      cases h
    | ok loaded =>
      rw [hload] at h
      cases h
      exact .inr ⟨locator, loaded, rfl, hload, rfl, rfl⟩

theorem find_error {e : LaunchError} (h : entry.find source tree = .error e) :
    ∃ locator, entry = .located locator ∧ source.load tree locator none = .error e := by
  cases entry with
  | described _ => cases h
  | located locator =>
    rw [find] at h
    cases hload : source.load tree locator none with
    | error e' =>
      rw [hload] at h
      cases h
      exact ⟨locator, rfl, hload⟩
    | ok loaded =>
      rw [hload] at h
      cases h

end Entry

variable {σ : Type}

/-- A moment of composing a description. -/
structure Moment (σ : Type) where
  /-- How many descriptions may be nested below. -/
  nesting : Nat
  /-- The actions that are left. -/
  actions : Description
  walk : Walk σ

namespace Compose

open Walk

variable (host : Host σ) (env : Environment) (source : Source)

/-- Including leads into a description: the conditions hold, it is loaded, and the overrides are set
in its scope. -/
def Enters (i : Inclusion) (w : Walk σ) (loaded : Loaded) (v : Walk σ) : Prop :=
  ∃ w₁ w₂, (decides host env (.inclusion i)).run w = (.ok true, w₁) ∧
    (loadInclusion host env source i).run w₁ = (.ok loaded, w₂) ∧
    (i.overrides.forM (setOverride host env)).run (w₂.entered loaded.key) = (.ok (), v)

/-- An action comes to its outcome without a description that it includes: nothing is asked of what
would compose one. -/
def Alone (action : Action) (w : Walk σ) (result : Except LaunchError Unit) (v : Walk σ) : Prop :=
  ∀ nested, (runAction host env source nested action).run w = (result, v)

/-- The moments that composing comes to from a moment `m`. -/
inductive Reaches (m : Moment σ) : Moment σ → Prop
  | refl : Reaches m m
  | next {nesting : Nat} {action : Action} {rest : Description} {w v : Walk σ} :
      Reaches m ⟨nesting, action :: rest, w⟩ →
      (runAction host env source (nested host env source nesting) action).run w = (.ok (), v) →
      Reaches m ⟨nesting, rest, v⟩
  | into {nesting : Nat} {i : Inclusion} {rest : Description} {w v : Walk σ} {loaded : Loaded} :
      Reaches m ⟨nesting + 1, .inclusion i :: rest, w⟩ →
      Enters host env source i w loaded v →
      Reaches m ⟨nesting, loaded.description, v⟩

end Compose

/-- Going on from a moment to the end of its description. -/
def Moment.finish (m : Moment σ) (host : Host σ) (env : Environment) (source : Source) :
    Except LaunchError Unit × Walk σ :=
  (Compose.run host env source m.nesting m.actions).run m.walk

namespace Composition

variable (host : Host σ) (env : Environment) (source : Source)

/-- Composes an entry. -/
def ofEntry (entry : Entry) (overrides : Bindings) (session : Session σ) :
    Except LaunchError Composition × Session σ :=
  match entry with
  | .described description => ofDescription host env source description none overrides session
  | .located locator => ofLocator host env source locator overrides session

/-- The moment at which composing a description starts. -/
def start (description : Description) (key : Option String) (overrides : Bindings)
    (session : Session σ) : Moment σ where
  nesting := source.nesting (host.files session.machine)
  actions := description
  walk := { arguments := .ofOverrides overrides, chain := key.toList, session }

/-- The moments that composing an entry comes to, where no outputs are kept from before. -/
def Reaches (entry : Entry) (overrides : Bindings) (machine : σ) (m : Moment σ) : Prop :=
  ∃ description key, entry.find source (host.files machine) = .ok (description, key) ∧
    Compose.Reaches host env source
      (start host source description key overrides (.fresh machine)) m

end Composition

namespace Compose

open Walk

variable {host : Host σ} {env : Environment} {source : Source}

theorem run_cons (nesting : Nat) (action : Action) (rest : Description) :
    run host env source nesting (action :: rest) =
      inAction action.identity (runAction host env source (nested host env source nesting) action)
        >>= fun _ => run host env source nesting rest := by
  rw [run_eq, run_eq]
  rfl

theorem run_append (nesting : Nat) (first rest : Description) :
    run host env source nesting (first ++ rest) =
      run host env source nesting first >>= fun _ => run host env source nesting rest := by
  rw [run_eq, run_eq, run_eq]
  exact List.forM_append

theorem inAction_ok {α : Type} {identity : String} {body : Composing σ α} {w v : Walk σ} {a : α} :
    (inAction identity body).run w = (.ok a, v) ↔ body.run w = (.ok a, v) := by
  rw [run_inAction]
  rcases body.run w with ⟨e | b, u⟩
  · exact ⟨by rintro ⟨⟩, by rintro ⟨⟩⟩
  · exact Iff.rfl

theorem run_cons_ok {nesting : Nat} {action : Action} {rest : Description} {w v : Walk σ}
    (h : (runAction host env source (nested host env source nesting) action).run w = (.ok (), v)) :
    (run host env source nesting (action :: rest)).run w =
      (run host env source nesting rest).run v := by
  rw [run_cons, run_bind_ok (inAction_ok.2 h)]

theorem run_cons_error {nesting : Nat} {action : Action} {rest : Description} {w v : Walk σ}
    {e : LaunchError}
    (h : (runAction host env source (nested host env source nesting) action).run w =
      (.error e, v)) :
    (run host env source nesting (action :: rest)).run w =
      (.error (e.inAction action.identity), v) := by
  rw [run_cons]
  refine run_bind_error ?_
  rw [run_inAction, h]
  rfl

/-- A description that succeeds does so action by action. -/
theorem ok_of_run {nesting : Nat} {first last : Description} {action : Action} {w v : Walk σ}
    (h : (run host env source nesting (first ++ action :: last)).run w = (.ok (), v)) :
    ∃ u u', (run host env source nesting first).run w = (.ok (), u) ∧
      (runAction host env source (nested host env source nesting) action).run u = (.ok (), u') ∧
      (run host env source nesting last).run u' = (.ok (), v) := by
  rw [run_append, run_cons] at h
  obtain ⟨_, u, hu, h⟩ := ok_of_bind h
  obtain ⟨_, u', hu', h⟩ := ok_of_bind h
  exact ⟨u, u', hu, inAction_ok.1 hu', h⟩

theorem runAction_inclusion {nested : Loaded → Composing σ Unit} {i : Inclusion} {loaded : Loaded}
    {w v : Walk σ} (h : Enters host env source i w loaded v) :
    (runAction host env source nested (.inclusion i)).run w =
      (((nested loaded).run v).1, ((nested loaded).run v).2.left) := by
  obtain ⟨w₁, w₂, hc, hl, ho⟩ := h
  rw [runAction_eq, run_bind_ok hc]
  change (loadInclusion host env source i >>= _).run w₁ = _
  rw [run_bind_ok hl, run_within, run_bind_ok ho]

/-- An action comes to its outcome alone, or it is an inclusion that leads into a description. -/
theorem alone_or_enters (host : Host σ) (env : Environment) (source : Source) (action : Action)
    (w : Walk σ) :
    (∃ result v, Alone host env source action w result v) ∨
      ∃ i loaded v, action = .inclusion i ∧ Enters host env source i w loaded v := by
  rcases hholds : (decides host env action).run w with ⟨e | holds, w₁⟩
  · refine .inl ⟨.error e, w₁, fun nested => ?_⟩
    rw [runAction_eq, run_bind_error hholds]
  cases holds with
  | false =>
    refine .inl ⟨.ok (), w₁, fun nested => ?_⟩
    rw [runAction_eq, run_bind_ok hholds]
    rfl
  | true =>
    have hact : ∀ nested, (runAction host env source nested action).run w =
        (act host env source nested action).run w₁ := fun nested => by
      rw [runAction_eq, run_bind_ok hholds]
      rfl
    cases action with
    | argument a => exact .inl ⟨_, _, hact⟩
    | process p => exact .inl ⟨_, _, hact⟩
    | inclusion i =>
      rcases hl : (loadInclusion host env source i).run w₁ with ⟨e | loaded, w₂⟩
      · exact .inl ⟨_, _, fun nested => (hact nested).trans (run_bind_error hl)⟩
      rcases ho : (i.overrides.forM (setOverride host env)).run (w₂.entered loaded.key)
        with ⟨e | _, v⟩
      · refine .inl ⟨.error e, v.left, fun nested => (hact nested).trans ?_⟩
        rw [act, run_bind_ok hl, run_within, run_bind_error ho]
      · exact .inr ⟨i, loaded, v, rfl, w₁, w₂, hholds, hl, ho⟩

theorem Reaches.trans {m₁ m₂ m₃ : Moment σ} (h : Reaches host env source m₁ m₂)
    (h' : Reaches host env source m₂ m₃) : Reaches host env source m₁ m₃ := by
  induction h' with
  | refl => exact h
  | next _ ha ih => exact ih.next ha
  | into _ he ih => exact ih.into he

/-- A success from one moment goes through every moment that is reached. -/
theorem Reaches.finish_ok {m m' : Moment σ} (h : Reaches host env source m m')
    (hm : (m.finish host env source).1 = .ok ()) : (m'.finish host env source).1 = .ok () := by
  induction h with
  | refl => exact hm
  | @next nesting action rest w v _ ha ih =>
    rw [Moment.finish, run_cons_ok ha] at ih
    exact ih
  | @into nesting i rest w v loaded _ he ih =>
    rcases hrun : (run host env source (nesting + 1) ([] ++ .inclusion i :: rest)).run w
      with ⟨result, u⟩
    obtain rfl : result = .ok () := (congrArg Prod.fst hrun).symm.trans ih
    obtain ⟨_, _, hw, hi, -⟩ := ok_of_run hrun
    rw [run_eq] at hw
    cases hw
    rw [runAction_inclusion he] at hi
    exact congrArg Prod.fst hi

/-- A description is left at a moment that has its last actions after its first ones. -/
theorem Reaches.after {m : Moment σ} {nesting : Nat} {first rest : Description} {w v : Walk σ}
    (h : Reaches host env source m ⟨nesting, first ++ rest, w⟩)
    (hv : (run host env source nesting first).run w = (.ok (), v)) :
    Reaches host env source m ⟨nesting, rest, v⟩ := by
  induction first generalizing w with
  | nil =>
    rw [run_eq] at hv
    cases hv
    exact h
  | cons action first ih =>
    rw [run_cons] at hv
    obtain ⟨_, u, hu, hrest⟩ := ok_of_bind hv
    exact ih (h.next (inAction_ok.1 hu)) hrest

theorem decides_ok {action : Action} {w v : Walk σ} {holds : Bool}
    (h : (decides host env action).run w = (.ok holds, v)) : v = { w with session := v.session } := by
  obtain ⟨session, -, rfl⟩ := resolving_ok h
  rfl

/-- Overrides that resolve are set one after another. -/
theorem setOverrides_ok {overrides : List (String × List Substitution)} {w v : Walk σ}
    (h : (overrides.forM (setOverride host env)).run w = (.ok (), v)) :
    ∃ given : Bindings, given.map Prod.fst = overrides.map Prod.fst ∧
      v = { w with
        session := v.session
        arguments := given.foldl (fun t b => t.setOverride b.1 b.2) w.arguments } := by
  induction overrides generalizing w with
  | nil =>
    cases h
    exact ⟨[], rfl, rfl⟩
  | cons binding overrides ih =>
    obtain ⟨_, u, hu, hrest⟩ := ok_of_bind h
    obtain ⟨value, _, hvalue, hset⟩ := ok_of_bind hu
    obtain ⟨session, -, rfl⟩ := resolving_ok hvalue
    cases hset
    obtain ⟨given, hgiven, hv⟩ := ih hrest
    exact ⟨(binding.1, value) :: given, by simp [hgiven], hv⟩

/-- The overrides of an inclusion are set above what the including description sees. -/
theorem setOverrides_entered {i : Inclusion} {w w₁ w₂ v : Walk σ} {locator key : String}
    (hholds : (decides host env (.inclusion i)).run w = (.ok true, w₁))
    (hlocator : (resolveText host env i.locator).run w₁ = (.ok locator, w₂))
    (hoverrides : (i.overrides.forM (setOverride host env)).run (w₂.entered key) = (.ok (), v)) :
    ∃ given : Bindings, given.map Prod.fst = i.overrides.map Prod.fst ∧
      v = { w.entered key with
        session := v.session
        arguments := given.foldl (fun t b => t.setOverride b.1 b.2) (w.entered key).arguments } := by
  obtain ⟨given, hgiven, hv⟩ := setOverrides_ok hoverrides
  obtain ⟨_, -, hw₂⟩ := resolving_ok hlocator
  rw [hw₂, decides_ok hholds] at hv
  exact ⟨given, hgiven, hv⟩

/-- What entering a description does to the walk. -/
theorem Enters.eq {i : Inclusion} {w v : Walk σ} {loaded : Loaded}
    (h : Enters host env source i w loaded v) :
    ∃ given : Bindings, given.map Prod.fst = i.overrides.map Prod.fst ∧
      v = { w.entered loaded.key with
        session := v.session
        arguments := given.foldl (fun t b => t.setOverride b.1 b.2)
          (w.entered loaded.key).arguments } := by
  obtain ⟨w₁, w₂, hholds, hl, hoverrides⟩ := h
  obtain ⟨_, hlocator, -⟩ := loadInclusion_ok hl
  exact setOverrides_entered hholds hlocator hoverrides

section

variable {S : Session σ → Session σ → Prop} [IsPreorder (Session σ) S]
  (hS : ∀ line, Keeps S (host.output env line))

include hS

theorem Enters.session {i : Inclusion} {w v : Walk σ} {loaded : Loaded}
    (h : Enters host env source i w loaded v) : S w.session v.session := by
  obtain ⟨w₁, w₂, hc, hl, ho⟩ := h
  have h₁ := ((decides_keeps hS (.inclusion i)).of_run hc).session
  have h₂ := ((loadInclusion_keeps hS i).of_run hl).session
  have h₃ := ((Keeps.forM fun b _ => setOverride_keeps hS b).of_run ho).session
  exact trans_of S h₁ (trans_of S h₂ h₃)

/-- Sessions follow one another along the moments. -/
theorem Reaches.session {m m' : Moment σ} (h : Reaches host env source m m') :
    S m.walk.session m'.walk.session := by
  induction h with
  | refl => exact refl_of S _
  | @next nesting action rest w v _ ha ih =>
    exact trans_of S ih ((runAction_keeps hS (nested_keeps hS nesting) action).of_run ha).session
  | into _ he ih => exact trans_of S ih (he.session hS)

end

end Compose

namespace Composition

variable {host : Host σ} {env : Environment} {source : Source}

theorem ofLocator_eq (locator : String) (overrides : Bindings) (session : Session σ) :
    ofLocator host env source locator overrides session =
      match source.load (host.files session.machine) locator none with
      | .ok loaded =>
        ofDescription host env source loaded.description (some loaded.key) overrides session
      | .error e => (.error e, session) := by
  rw [ofLocator]
  cases source.load (host.files session.machine) locator none <;> rfl

theorem ofEntry_eq (entry : Entry) (overrides : Bindings) (session : Session σ) :
    ofEntry host env source entry overrides session =
      match entry.find source (host.files session.machine) with
      | .ok (description, key) =>
        ofDescription host env source description key overrides session
      | .error e => (.error e, session) := by
  cases entry with
  | described description => rfl
  | located locator =>
    rw [ofEntry, ofLocator_eq, Entry.find]
    cases source.load (host.files session.machine) locator none <;> rfl

theorem ofDescription_eq (description : Description) (key : Option String) (overrides : Bindings)
    (session : Session σ) :
    ofDescription host env source description key overrides session =
      let (result, w) := (start host source description key overrides session).finish host env source
      (result.map fun _ => { manifest := ⟨w.processes⟩, arguments := argumentValues w.arguments },
        w.session) := by
  rw [ofDescription, Moment.finish, start]
  rcases (Compose.run host env source _ description).run _ with ⟨_ | _, _⟩ <;> rfl

/-- A success goes through every moment that is reached. -/
theorem Reaches.finish_ok {entry : Entry} {overrides : Bindings} {machine : σ} {m : Moment σ}
    {c : Composition} (h : Reaches host env source entry overrides machine m)
    (hc : (ofEntry host env source entry overrides (.fresh machine)).1 = .ok c) :
    (m.finish host env source).1 = .ok () := by
  obtain ⟨description, key, hfind, h⟩ := h
  refine h.finish_ok ?_
  rw [ofEntry_eq, show (Session.fresh machine).machine = machine from rfl, hfind] at hc
  simp only [ofDescription_eq] at hc
  rcases hrun : (start host source description key overrides (.fresh machine)).finish host env
    source with ⟨_ | _, _⟩
  · rw [hrun] at hc
    cases hc
  · rfl

/-- The session of a moment comes after the one that composing starts with. -/
theorem Reaches.session {S : Session σ → Session σ → Prop} [IsPreorder (Session σ) S]
    (hS : ∀ line, Keeps S (host.output env line)) {entry : Entry} {overrides : Bindings}
    {machine : σ} {m : Moment σ} (h : Reaches host env source entry overrides machine m) :
    S (.fresh machine) m.walk.session := by
  obtain ⟨description, key, -, h⟩ := h
  exact h.session hS

end Composition

end LaunchPlan
