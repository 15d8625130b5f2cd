import LaunchPlan.Proofs.Chains
import LaunchPlan.Proofs.Simulation

/-!
# Inclusions on their own

Where commands have fixed outcomes and descriptions are held in memory, an inclusion comes to what
the included description comes to on its own, with the values that it sees as overrides. Only the
longer chain of descriptions can tell the two apart.
-/

namespace LaunchPlan

open Computing

variable {σ : Type}

/-- Every command has one outcome, and changes no file. -/
structure Host.Steady (host : Host σ) (env : Environment)
    (outcome : String → Except SubstitutionError String) : Prop where
  run : ∀ line machine, (host.run env line machine).1 = outcome line
  files : host.KeepsFiles env

theorem Host.echo_steady (env : Environment) : echo.Steady env .ok :=
  ⟨fun _ _ => rfl, fun _ _ => rfl⟩

namespace Session

variable {outcome : String → Except SubstitutionError String}

/-- The outputs kept are the outcomes of their commands. -/
def Faithful (outcome : String → Except SubstitutionError String) (s : Session σ) : Prop :=
  ∀ line output, s.output? line = some output → outcome line = .ok output

theorem fresh_faithful (machine : σ) : (fresh machine).Faithful outcome := by
  intro line output h
  cases h

/-- The session `w` comes after `v`: it stays faithful and shows the same files. -/
structure Follows (host : Host σ) (outcome : String → Except SubstitutionError String)
    (v w : Session σ) : Prop where
  faithful : v.Faithful outcome → w.Faithful outcome
  files : host.files w.machine = host.files v.machine

instance (host : Host σ) : IsPreorder (Session σ) (Follows host outcome) where
  refl _ := ⟨id, rfl⟩
  trans _ _ _ h k := ⟨k.faithful ∘ h.faithful, k.files.trans h.files⟩

/-- Two faithful sessions show the same files. -/
structure Alike (host : Host σ) (outcome : String → Except SubstitutionError String)
    (v w : Session σ) : Prop where
  faithful₁ : v.Faithful outcome
  faithful₂ : w.Faithful outcome
  files : host.files v.machine = host.files w.machine

end Session

namespace Host.Steady

variable {host : Host σ} {env : Environment}
  {outcome : String → Except SubstitutionError String} (h : host.Steady env outcome)

include h

/-- Kept or run, the output of a command is its outcome. -/
theorem output_eq {s : Session σ} (hs : s.Faithful outcome) (line : String) :
    ((host.output env line).run s).1 = outcome line := by
  cases hk : s.output? line with
  | some output => rw [output_of_kept hk, hs line output hk]
  | none =>
    rw [← h.run line s.machine]
    rcases hr : host.run env line s.machine with ⟨e | output, machine⟩
    · rw [output_of_error hk hr]
    · rw [output_of_ok hk hr]

theorem output_follows (line : String) :
    Keeps (Session.Follows host outcome) (host.output env line) := by
  intro s
  have hlater := output_later h.files line s
  refine ⟨fun hs other output ho => ?_, hlater.files⟩
  cases hk : s.output? line with
  | some _ =>
    rw [output_of_kept hk] at ho
    exact hs other output ho
  | none =>
    have hrun := h.run line s.machine
    rcases hr : host.run env line s.machine with ⟨e | printed, machine⟩
    · rw [output_of_error hk hr] at ho
      exact hs other output ho
    · rw [output_of_ok hk hr, Session.output?_keep] at ho
      rw [hr] at hrun
      split at ho
      · next heq =>
        cases ho
        rw [← heq.1, ← hrun]
      · exact hs other output ho

theorem alike : HostSimulation host host env (Session.Alike host outcome) where
  files hvw := hvw.files
  output line v w hvw := by
    have hv := h.output_follows line v
    have hw := h.output_follows line w
    refine agree_never.2 ⟨?_, hv.faithful hvw.faithful₁, hw.faithful hvw.faithful₂, ?_⟩
    · rw [h.output_eq hvw.faithful₁, h.output_eq hvw.faithful₂]
    · rw [hv.files, hw.files, hvw.files]

end Host.Steady

namespace Source

variable {descriptions : List (String × Description)}

/-- In memory, a longer chain makes no difference but for cycles. -/
theorem memory_chains (descriptions : List (String × Description)) :
    ChainSimulation (memory descriptions) IsCycle fun n₁ c₁ n₂ c₂ =>
      Room (descriptions.map Prod.fst) n₁ c₁ ∧ Room (descriptions.map Prod.fst) n₂ c₂ ∧
        ∀ key ∈ c₂, key ∈ c₁ where
  load _ _ _ := rfl
  visited h := h.2.2
  cycle _ key _ := .inl ⟨_, rfl⟩
  deeper := by
    rintro n₁ c₁ n₂ c₂ ⟨h₁, h₂, hsub⟩ tree locator including loaded hload hkey
    obtain ⟨rfl, hmem⟩ := memory_load_ok hload
    obtain ⟨m₁, rfl, hm₁⟩ := h₁.enter hmem hkey
    obtain ⟨m₂, rfl, hm₂⟩ := h₂.enter hmem fun hc => hkey (hsub _ hc)
    refine .inr ⟨m₁, m₂, rfl, rfl, hm₁, hm₂, fun key hk => ?_⟩
    rcases List.mem_append.1 hk with hk | hk
    · exact List.mem_append_left _ (hsub key hk)
    · exact List.mem_append_right _ hk

end Source

namespace ArgumentTable

/-- Overrides change the values of no other names. -/
theorem lookup_setOverrides {given : Bindings} {t : ArgumentTable} {x : String}
    (hx : x ∉ given.map Prod.fst) :
    (given.foldl (fun t b => t.setOverride b.1 b.2) t).lookup x = t.lookup x := by
  induction given generalizing t with
  | nil => rfl
  | cons b given ih =>
    simp only [List.map_cons, List.mem_cons, not_or] at hx
    rw [List.foldl_cons, ih hx.2, lookup_setOverride, if_neg (Ne.symm hx.1)]

theorem isDeclared_setOverrides (given : Bindings) (t : ArgumentTable) (x : String) :
    (given.foldl (fun t b => t.setOverride b.1 b.2) t).isDeclared x = t.isDeclared x := by
  induction given generalizing t with
  | nil => rfl
  | cons b given ih => rw [List.foldl_cons, ih, isDeclared_setOverride]

/-- A scope that has declared nothing shows what an outermost scope does with the same values. -/
theorem sameView_ofOverrides (X : String → Prop) {t : ArgumentTable}
    (ht : ∀ x, t.isDeclared x = false) {values : Bindings}
    (hvalues : ∀ x, values.get? x = t.lookup x) : SameView X t (ofOverrides values) := by
  refine ⟨fun x _ => ?_, fun x _ => ?_⟩
  · rw [ht, isDeclared_ofOverrides]
  · rw [lookup_ofOverrides, hvalues]

end ArgumentTable

namespace Compose

open Walk

variable {host : Host σ} {env : Environment}
  {outcome : String → Except SubstitutionError String}
  {descriptions : List (String × Description)}

/-- The last override of a name counts. -/
theorem setOverrides_last {before later : List (String × List Substitution)} {x : String}
    {expression : List Substitution} {w v : Walk σ}
    (h : ((before ++ (x, expression) :: later).forM (setOverride host env)).run w = (.ok (), v))
    (hx : x ∉ later.map Prod.fst) :
    ∃ u u' value, (before.forM (setOverride host env)).run w = (.ok (), u) ∧
      (resolveText host env expression).run u = (.ok value, u') ∧
      v.arguments.lookup x = some value := by
  rw [show (before ++ (x, expression) :: later).forM (setOverride host env) = _ from
    List.forM_append] at h
  obtain ⟨_, u, hu, h⟩ := ok_of_bind h
  obtain ⟨_, u'', hset, h⟩ := ok_of_bind h
  obtain ⟨value, u', hvalue, hset⟩ := ok_of_bind hset
  cases hset
  obtain ⟨given, hgiven, hv⟩ := setOverrides_ok h
  refine ⟨u, u', value, hu, hvalue, ?_⟩
  rw [hv, ArgumentTable.lookup_setOverrides (hgiven ▸ hx), ArgumentTable.lookup_setOverride,
    if_pos rfl]

theorem loadInclusion_run {source : Source} {i : Inclusion} {w v : Walk σ} {locator : String}
    (h : (resolveText host env i.locator).run w = (.ok locator, v)) :
    (loadInclusion host env source i).run w =
      (accept v.chain (source.load (host.files v.session.machine) locator v.chain.getLast?), v) := by
  rw [loadInclusion_eq, run_bind_ok h]
  rfl

theorem runAction_inclusion_error {source : Source} {nested : Loaded → Composing σ Unit}
    {i : Inclusion} {w w₁ w₂ : Walk σ} {e : LaunchError}
    (hholds : (decides host env (.inclusion i)).run w = (.ok true, w₁))
    (hl : (loadInclusion host env source i).run w₁ = (.error e, w₂)) :
    (runAction host env source nested (.inclusion i)).run w = (.error e, w₂) := by
  rw [runAction_eq, run_bind_ok hholds]
  exact run_bind_error hl

/-- A description below a chain goes side by side with the same description as the outermost one, if
both see the same values. -/
theorem nested_agrees (hsteady : host.Steady env outcome) {nesting : Nat} {loaded : Loaded}
    {chain : List String} (hroom : Room (descriptions.map Prod.fst) nesting chain)
    (hmem : loaded.key ∈ descriptions.map Prod.fst) (hkey : loaded.key ∉ chain) {v : Walk σ}
    (hchain : v.chain = chain ++ [loaded.key]) (hfaithful : v.session.Faithful outcome)
    (hnone : ∀ x, v.arguments.isDeclared x = false) {visible : Bindings}
    (hvisible : ∀ x, visible.get? x = v.arguments.lookup x) {alone : σ}
    (halone : host.files v.session.machine = host.files alone) :
    let start := Composition.start host (.memory descriptions) loaded.description (some loaded.key)
      visible (.fresh alone)
    Agree (fun e => Source.IsCycle e.cause)
      (Abreast (Session.Alike host outcome) (fun _ => True) v start.walk)
      ((nested host env (.memory descriptions) nesting loaded).run v)
      (start.finish host env (.memory descriptions)) := by
  intro start
  obtain ⟨below, rfl, hbelow⟩ := hroom.enter hmem hkey
  have hview : v.arguments.SameView (fun _ => True) start.walk.arguments :=
    ArgumentTable.sameView_ofOverrides _ hnone hvisible
  have hsession : Session.Alike host outcome v.session start.walk.session :=
    ⟨hfaithful, Session.fresh_faithful alone, halone⟩
  have hstart : Room (descriptions.map Prod.fst) start.nesting start.walk.chain :=
    .of_length (Source.memory_nesting descriptions (host.files alone)) [loaded.key]
  refine run_simulates hsteady.alike (Source.memory_chains descriptions)
    (fun _ _ _ _ _ _ => trivial) (fun _ _ _ _ => trivial) ⟨hchain ▸ hbelow, hstart, ?_⟩ v start.walk
    (.start hsession hview)
  rw [hchain]
  exact fun key hk => List.mem_append_right chain hk

theorem Enters.eq_alone (hsteady : host.Steady env outcome) {entry : Entry} {overrides : Bindings}
    {machine : σ} {nesting : Nat} {i : Inclusion} {rest : Description} {w v : Walk σ}
    (hm : Composition.Reaches host env (.memory descriptions) entry overrides machine
      ⟨nesting, .inclusion i :: rest, w⟩) {loaded : Loaded}
    (h : Enters host env (.memory descriptions) i w loaded v) (hkey : loaded.key ∉ w.chain)
    {alone : σ} (hload : (Source.memory descriptions).load (host.files alone) loaded.key none =
      .ok loaded)
    {visible : Bindings} (hvisible : ∀ x, visible.get? x = v.arguments.lookup x)
    (halone : host.files alone = host.files w.session.machine)
    {included : Except LaunchError Unit} {after : Walk σ}
    (hincluded : (runAction host env (.memory descriptions)
      (nested host env (.memory descriptions) nesting) (.inclusion i)).run w = (included, after))
    {composed : Except LaunchError Composition}
    (hcomposed : (Composition.ofLocator host env (.memory descriptions) loaded.key visible
      (.fresh alone)).1 = composed) :
    (included = .ok () →
      ∃ c, composed = .ok c ∧ after.processes = w.processes ++ c.manifest.processes) ∧
    ∀ c, composed = .ok c →
      (included = .ok () ∧ after.processes = w.processes ++ c.manifest.processes) ∨
        ∃ e chain, included = .error e ∧ e.cause = .includeCycle chain := by
  obtain ⟨given, -, hv⟩ := h.eq
  have hfollows := h.session hsteady.output_follows
  have hfaithful : v.session.Faithful outcome :=
    hfollows.faithful ((hm.session hsteady.output_follows).faithful (Session.fresh_faithful machine))
  have hchain : v.chain = w.chain ++ [loaded.key] := by rw [hv]; rfl
  have hprocesses : v.processes = w.processes := by rw [hv]; rfl
  have hnone : ∀ x, v.arguments.isDeclared x = false := fun x => by
    rw [hv, ArgumentTable.isDeclared_setOverrides]
    rfl
  have hroom : Room (descriptions.map Prod.fst) nesting w.chain :=
    hm.room (fun _ _ => Source.memory_keysIn descriptions _) (Source.memory_nesting descriptions _)
  have hagree := nested_agrees hsteady hroom (Source.memory_load_ok hload).2 hkey hchain
    hfaithful hnone hvisible (hfollows.files.trans halone.symm)
  rw [Composition.ofLocator_eq, show (Session.fresh alone).machine = alone from rfl, hload]
    at hcomposed
  simp only [Composition.ofDescription_eq] at hcomposed
  rw [runAction_inclusion h] at hincluded
  simp only at hagree
  generalize hfinish : Moment.finish _ host env (.memory descriptions) = finish at hagree hcomposed
  obtain ⟨_, u⟩ := finish
  rcases hnested : (nested host env (.memory descriptions) nesting loaded).run v with ⟨result, v'⟩
  rw [hnested] at hagree hincluded
  cases hincluded
  rcases hagree with ⟨e, rfl, chain, hcycle⟩ | ⟨rfl, habreast⟩
  · exact ⟨by rintro ⟨⟩, fun c _ => .inr ⟨e, chain, rfl, hcycle⟩⟩
  obtain ⟨new, hnew, hu⟩ := habreast.processes
  have hafter : v'.left.processes = w.processes ++ u.processes := by
    rw [hu]
    exact hnew.trans (by rw [hprocesses]; rfl)
  subst hcomposed
  cases result with
  | error e => exact ⟨by rintro ⟨⟩, by rintro c ⟨⟩⟩
  | ok _ =>
    refine ⟨fun _ => ⟨_, rfl, hafter⟩, fun c hc => .inl ⟨rfl, ?_⟩⟩
    cases hc
    exact hafter

/-- Processing an inclusion that resolves adds the processes that the included description has on
its own, with the values that it sees as overrides. The inclusion fails where composing alone fails,
and where the description would include itself. -/
theorem inclusion_eq_alone (hsteady : host.Steady env outcome) {entry : Entry}
    {overrides : Bindings} {machine : σ} {nesting : Nat} {i : Inclusion} {rest : Description}
    {w w₁ w₂ w₃ : Walk σ}
    (hm : Composition.Reaches host env (.memory descriptions) entry overrides machine
      ⟨nesting, .inclusion i :: rest, w⟩)
    (hholds : (decides host env (.inclusion i)).run w = (.ok true, w₁)) {locator : String}
    (hlocator : (resolveText host env i.locator).run w₁ = (.ok locator, w₂))
    (hoverrides : (i.overrides.forM (setOverride host env)).run (w₂.entered locator) =
      (.ok (), w₃))
    {visible : Bindings} (hvisible : ∀ x, visible.get? x = w₃.arguments.lookup x)
    {alone : σ} (halone : host.files alone = host.files w.session.machine)
    {included : Except LaunchError Unit} {after : Walk σ}
    (hincluded : (runAction host env (.memory descriptions)
      (nested host env (.memory descriptions) nesting) (.inclusion i)).run w = (included, after))
    {composed : Except LaunchError Composition}
    (hcomposed : (Composition.ofLocator host env (.memory descriptions) locator visible
      (.fresh alone)).1 = composed) :
    (∀ x, x ∉ i.overrides.map Prod.fst → visible.get? x = w.arguments.lookup x) ∧
    (∀ before x expression later, i.overrides = before ++ (x, expression) :: later →
      x ∉ later.map Prod.fst → ∃ u u' value,
        (before.forM (setOverride host env)).run (w₂.entered locator) = (.ok (), u) ∧
        (resolveText host env expression).run u = (.ok value, u') ∧
        visible.get? x = some value) ∧
    (included = .ok () →
      ∃ c, composed = .ok c ∧ after.processes = w.processes ++ c.manifest.processes) ∧
    ∀ c, composed = .ok c →
      (included = .ok () ∧ after.processes = w.processes ++ c.manifest.processes) ∨
        ∃ e chain, included = .error e ∧ e.cause = .includeCycle chain := by
  obtain ⟨given, hgiven, hw₃⟩ := setOverrides_entered hholds hlocator hoverrides
  refine ⟨fun x hx => ?_, fun before x expression later heq hx => ?_, ?_⟩
  · rw [hvisible, hw₃, ArgumentTable.lookup_setOverrides (hgiven ▸ hx), entered,
      ArgumentTable.lookup_enter]
  · rw [hvisible]
    exact setOverrides_last (heq ▸ hoverrides) hx
  have hw₂ : w₂.chain = w.chain := by
    obtain ⟨_, -, hw₂⟩ := resolving_ok hlocator
    rw [hw₂, decides_ok hholds]
  have hload : (loadInclusion host env (.memory descriptions) i).run w₁ =
      (accept w₂.chain ((Source.memory descriptions).load (host.files alone) locator none), w₂) :=
    loadInclusion_run hlocator
  cases hl : (Source.memory descriptions).load (host.files alone) locator none with
  | error cause =>
    rw [hl] at hload
    rw [runAction_inclusion_error hholds hload] at hincluded
    cases hincluded
    rw [Composition.ofLocator, Session.fresh, hl] at hcomposed
    subst hcomposed
    exact ⟨by rintro ⟨⟩, by rintro c ⟨⟩⟩
  | ok loaded =>
    obtain ⟨rfl, hmem⟩ := Source.memory_load_ok hl
    by_cases hkey : loaded.key ∈ w₂.chain
    · rw [hl, accept, if_pos hkey] at hload
      rw [runAction_inclusion_error hholds hload] at hincluded
      cases hincluded
      exact ⟨by rintro ⟨⟩, fun c _ => .inr ⟨_, _, rfl, rfl⟩⟩
    · rw [hl, accept, if_neg hkey] at hload
      have henters : Enters host env (.memory descriptions) i w loaded w₃ :=
        ⟨w₁, w₂, hholds, hload, hoverrides⟩
      exact henters.eq_alone hsteady hm (hw₂ ▸ hkey) hl hvisible halone hincluded hcomposed

/-- An inclusion that sets a name twice, the second time from the first value and a command. -/
def cameraInclusion : Inclusion where
  locator := [.text "camera"]
  overrides := [("site", [.argument "base", .text "/"]),
    ("site", [.argument "site", .command [.text "hall"]])]

def cameraDescription : Description :=
  [.argument { name := "rate", default := some [.text "30"] },
    .process { executable := [.text "driver"], arguments := [[.argument "site"], [.argument "rate"]] }]

def cameraDescriptions : List (String × Description) :=
  [("main", [.argument { name := "base", default := some [.text "lab"] },
      .inclusion cameraInclusion]),
    ("camera", cameraDescription)]

/-- The walk that comes to the inclusion. -/
def cameraWalk : Walk Unit where
  arguments := (ArgumentTable.ofOverrides []).push { name := "base", default := some "lab" }
  chain := ["main"]
  session := .fresh ()

/-- The walk in the scope of the included description. -/
def cameraEntered : Walk Unit where
  arguments := ((cameraWalk.arguments.enter "camera" []).setOverride "site" "lab/").setOverride
    "site" "lab/hall"
  chain := ["main", "camera"]
  session := { machine := (), outputs := some [("hall", "hall")] }

theorem camera_eq_alone :
    ∃ after c, Composition.Reaches Host.echo {} (.memory cameraDescriptions) (.located "main") [] ()
        ⟨2, [.inclusion cameraInclusion], cameraWalk⟩ ∧
      (runAction Host.echo {} (.memory cameraDescriptions)
        (nested Host.echo {} (.memory cameraDescriptions) 2) (.inclusion cameraInclusion)).run
          cameraWalk = (.ok (), after) ∧
      (Composition.ofLocator Host.echo {} (.memory cameraDescriptions) "camera"
        [("site", "lab/hall"), ("base", "lab")] (.fresh ())).1 = .ok c ∧
      after.processes = cameraWalk.processes ++ c.manifest.processes := by
  have hm : Composition.Reaches Host.echo {} (.memory cameraDescriptions) (.located "main") [] ()
      ⟨2, [.inclusion cameraInclusion], cameraWalk⟩ := ⟨_, _, rfl, .next .refl rfl⟩
  have hholds : (decides Host.echo {} (.inclusion cameraInclusion)).run cameraWalk =
      (.ok true, cameraWalk) := rfl
  have hlocator : (resolveText Host.echo {} cameraInclusion.locator).run cameraWalk =
      (.ok "camera", cameraWalk) := rfl
  have hload : (loadInclusion Host.echo {} (.memory cameraDescriptions) cameraInclusion).run
      cameraWalk = (.ok ⟨"camera", cameraDescription⟩, cameraWalk) := rfl
  have hoverrides : (cameraInclusion.overrides.forM (setOverride Host.echo {})).run
      (cameraWalk.entered "camera") = (.ok (), cameraEntered) := rfl
  have henters : Enters Host.echo {} (.memory cameraDescriptions) cameraInclusion cameraWalk
      ⟨"camera", cameraDescription⟩ cameraEntered :=
    ⟨cameraWalk, cameraWalk, hholds, hload, hoverrides⟩
  have hrun : (runAction Host.echo {} (.memory cameraDescriptions)
      (nested Host.echo {} (.memory cameraDescriptions) 2) (.inclusion cameraInclusion)).run
        cameraWalk = (.ok (), _) := runAction_inclusion henters
  obtain ⟨-, -, hok, -⟩ := inclusion_eq_alone (Host.echo_steady {}) hm hholds hlocator hoverrides
    cameraEntered.arguments.get?_values rfl hrun rfl
  obtain ⟨c, hc, hp⟩ := hok rfl
  exact ⟨_, c, hm, hrun, hc, hp⟩

end Compose

end LaunchPlan
