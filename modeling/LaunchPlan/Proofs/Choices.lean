import LaunchPlan.Proofs.OppositeConditions
import LaunchPlan.Proofs.Scopes
import Mathlib.Logic.Function.Iterate

/-!
# Arguments keep to their choices

The value of an argument is compared with its choices once, where it is declared. From there on
its scope sees the same value, or none, until the description ends, also from inside the
descriptions that are included meanwhile. So an argument never has a value that is none of its
choices, wherever the value comes from.
-/

namespace LaunchPlan

open Computing

namespace ArgumentTable

/-- The table as the scope at a depth sees it: the scopes entered below are left. -/
def seenFrom (depth : Nat) (t : ArgumentTable) : ArgumentTable :=
  leave^[t.depth - depth] t

theorem seenFrom_of_le {depth : Nat} {t : ArgumentTable} (h : t.depth ≤ depth) :
    t.seenFrom depth = t := by
  have hnone : t.depth - depth = 0 := by omega
  rw [seenFrom, hnone]
  rfl

/-- What a scope further out sees does not depend on the current one. -/
theorem seenFrom_of_enclosing {depth : Nat} {t u : ArgumentTable}
    (h : t.enclosing = u.enclosing) (hpos : 0 < depth) (hlt : depth < t.depth) :
    t.seenFrom depth = u.seenFrom depth := by
  have hdepth : u.depth = t.depth := by simp [ArgumentTable.depth, h]
  obtain ⟨n, hn⟩ : ∃ n, t.depth - depth = n + 1 := ⟨t.depth - depth - 1, by omega⟩
  have hleave : t.leave = u.leave := by
    cases ht : t.enclosing with
    | nil =>
      simp only [ArgumentTable.depth, ht, List.length_nil] at hlt
      omega
    | cons outer rest => simp [leave, ht, ← h]
  rw [seenFrom, seenFrom, hdepth, hn, Function.iterate_succ_apply, Function.iterate_succ_apply,
    hleave]

theorem seenFrom_enter {depth : Nat} {t : ArgumentTable} (label : String) (h : depth ≤ t.depth) :
    (t.enter label []).seenFrom depth = t.seenFrom depth := by
  have hn : (t.enter label []).depth - depth = (t.depth - depth) + 1 := by
    rw [depth_enter]
    omega
  rw [seenFrom, seenFrom, hn, Function.iterate_succ_apply, leave_enter]

theorem Grows.enclosing {t u : ArgumentTable} (h : t.Grows u) : u.enclosing = t.enclosing := by
  obtain ⟨ds, rfl⟩ := h
  rfl

theorem Grows.depth {t u : ArgumentTable} (h : t.Grows u) : u.depth = t.depth := by
  rw [ArgumentTable.depth, ArgumentTable.depth, h.enclosing]

theorem Grows.declarations {t u : ArgumentTable} (h : t.Grows u) :
    t.declarations <+: u.declarations := by
  obtain ⟨ds, rfl⟩ := h
  exact List.prefix_append _ ds

/-- The current scope has each name once, and no value that is none of the choices. -/
structure Chosen (t : ArgumentTable) : Prop where
  distinct : (t.declarations.map Declaration.name).Nodup
  among : ∀ d ∈ t.declarations, ∀ choices, d.choices = some choices →
    ∀ value, t.lookup d.name = some value → value ∈ choices

/-- The declaration is new in the current scope, and its value will be one of its choices. -/
structure Admits (t : ArgumentTable) (d : Declaration) : Prop where
  new : t.isDeclared d.name = false
  chosen : ∀ choices, d.choices = some choices →
    ∀ value, (t.push d).lookup d.name = some value → value ∈ choices

theorem declare_ok {t : ArgumentTable} {d : Declaration} (h : (t.declare d).1 = .ok ()) :
    t.Admits d ∧ (t.declare d).2 = t.push d := by
  rw [declare] at h ⊢
  by_cases hnew : (t.current.declaration? d.name).isSome
  · rw [if_pos hnew] at h
    cases h
  · rw [if_neg hnew] at h ⊢
    refine ⟨⟨by simpa [isDeclared] using hnew, fun choices hchoices value hvalue => ?_⟩, rfl⟩
    simp only [checkChoice, hchoices, hvalue] at h
    split at h
    · assumption
    · cases h

/-- The check at a declaration is enough: the values of the other arguments stay what they are. -/
theorem Chosen.push {t : ArgumentTable} {d : Declaration} (h : t.Chosen) (hd : t.Admits d) :
    (t.push d).Chosen where
  distinct := by
    have hnew := isDeclared_eq_false.1 hd.new
    change ((t.declarations ++ [d]).map Declaration.name).Nodup
    rw [List.map_append, List.map_singleton, ← List.concat_eq_append]
    exact h.distinct.concat hnew
  among := by
    intro e he choices hchoices value hvalue
    rcases List.mem_append.1 (show e ∈ t.declarations ++ [d] from he) with he | he
    · have hne : d.name ≠ e.name := by
        intro heq
        have hnew := isDeclared_eq_false.1 hd.new
        exact hnew (heq ▸ List.mem_map_of_mem he)
      rw [lookup_push t d e.name hd.new, if_neg hne] at hvalue
      exact h.among e he choices hchoices value (by simpa using hvalue)
    · obtain rfl := List.mem_singleton.1 he
      exact hd.chosen choices hchoices value hvalue

theorem chosen_of_no_declarations {t : ArgumentTable} (h : t.declarations = []) : t.Chosen where
  distinct := by simp [h]
  among := by simp [h]

/-- All scopes, from the outermost to the current one, keep to their choices. -/
def AllChosen (t : ArgumentTable) : Prop :=
  ∀ depth, 0 < depth → (t.seenFrom depth).Chosen

theorem AllChosen.current {t : ArgumentTable} (h : t.AllChosen) : t.Chosen := by
  have ht := h t.depth t.depth_pos
  rwa [seenFrom_of_le (Nat.le_refl _)] at ht

theorem allChosen_ofOverrides (overrides : Bindings) : (ofOverrides overrides).AllChosen := by
  intro depth hpos
  rw [seenFrom_of_le hpos]
  exact chosen_of_no_declarations rfl

/-- Only the current scope needs to be looked at when the others are as they were. -/
theorem AllChosen.of_enclosing {t u : ArgumentTable} (h : t.AllChosen)
    (henclosing : u.enclosing = t.enclosing) (hcurrent : u.Chosen) : u.AllChosen := by
  intro depth hpos
  by_cases hlt : depth < u.depth
  · rw [seenFrom_of_enclosing henclosing hpos hlt]
    exact h depth hpos
  · rw [seenFrom_of_le (Nat.le_of_not_lt hlt)]
    exact hcurrent

theorem AllChosen.enter {t : ArgumentTable} (h : t.AllChosen) (label : String) :
    (t.enter label []).AllChosen := by
  intro depth hpos
  by_cases hle : depth ≤ t.depth
  · rw [seenFrom_enter label hle]
    exact h depth hpos
  · have hdepth : (t.enter label []).depth ≤ depth := by
      rw [depth_enter]
      omega
    rw [seenFrom_of_le hdepth]
    exact chosen_of_no_declarations rfl

end ArgumentTable

variable {σ : Type}

namespace Compose

open Walk

variable {host : Host σ} {env : Environment} {source : Source} {nesting : Nat}

theorem declare_admits {a : ArgumentAction} {w v : Walk σ}
    (h : (declare host env a).run w = (.ok (), v)) :
    ∃ default, w.arguments.Admits (a.declaration default) ∧
      v.arguments = w.arguments.push (a.declaration default) := by
  have hled := host.output_led env
  rw [declare_eq] at h
  obtain ⟨default, u, hu, hdeclare⟩ := ok_of_bind h
  have hsame : u.arguments = w.arguments :=
    ((resolveText?_keeps hled a.default).mono Resolved.sameArguments).of_run hu
  change ((u.arguments.declare (a.declaration default)).1.mapError _, _) = _ at hdeclare
  rw [hsame] at hdeclare
  have hok : (w.arguments.declare (a.declaration default)).1 = .ok () := by
    have hresult := congrArg Prod.fst hdeclare
    cases hd : (w.arguments.declare (a.declaration default)).1 with
    | error cause =>
      rw [hd] at hresult
      cases hresult
    | ok _ => rfl
  have hv : (w.arguments.declare (a.declaration default)).2 = v.arguments :=
    congrArg (fun r => r.2.arguments) hdeclare
  obtain ⟨hadmits, hpush⟩ := ArgumentTable.declare_ok hok
  exact ⟨default, hadmits, hv.symm.trans hpush⟩

theorem Processed.runAction {action : Action} {w v : Walk σ}
    (h : Processed host env source nesting action w v) :
    (runAction host env source (nested host env source nesting) action).run w = (.ok (), v) := by
  obtain ⟨u, hu, hact⟩ := h
  rw [runAction_eq, run_bind_ok hu]
  exact hact

/-- An argument whose conditions hold is declared in the current scope. -/
theorem Processed.declares {a : ArgumentAction} {w v : Walk σ}
    (h : Processed host env source nesting (.argument a) w v) :
    ∃ default, w.arguments.Admits (a.declaration default) ∧
      v.arguments = w.arguments.push (a.declaration default) := by
  obtain ⟨u, hu, hact⟩ := h
  have hsame : u.arguments = w.arguments := (decides_same _).of_run hu
  rw [← hsame]
  exact declare_admits hact

/-- Processing what is no argument leaves the arguments as they were. -/
theorem Processed.same_arguments {action : Action} {w v : Walk σ}
    (h : Processed host env source nesting action w v) (hno : ∀ a, action ≠ .argument a) :
    v.arguments = w.arguments := by
  obtain ⟨u, hu, hact⟩ := h
  have hu' : u.arguments = w.arguments := (decides_same action).of_run hu
  cases action with
  | argument a => exact absurd rfl (hno a)
  | process p =>
    have hv : v.arguments = u.arguments := (process_same p).of_run hact
    rw [hv, hu']
  | inclusion i =>
    have hv : v.arguments = u.arguments := (inclusion_same nesting i).of_run hact
    rw [hv, hu']

/-- An action that succeeds leaves the arguments as they were, or it declares one that the current
scope admits. -/
theorem runAction_declares {action : Action} {w v : Walk σ}
    (h : (runAction host env source (nested host env source nesting) action).run w = (.ok (), v)) :
    v.arguments = w.arguments ∨ ∃ d, w.arguments.Admits d ∧ v.arguments = w.arguments.push d := by
  rcases runAction_ok h with hprocessed | hskipped
  · cases action with
    | argument a =>
      obtain ⟨default, hadmits, hv⟩ := hprocessed.declares
      exact .inr ⟨_, hadmits, hv⟩
    | process p => exact .inl (hprocessed.same_arguments fun a ha => by cases ha)
    | inclusion i => exact .inl (hprocessed.same_arguments fun a ha => by cases ha)
  · rw [hskipped.eq]
    exact .inl rfl

/-- What entering a description makes of the argument table: a scope without declarations around
which nothing has changed. -/
theorem Enters.arguments {i : Inclusion} {w v : Walk σ} {loaded : Loaded}
    (h : Enters host env source i w loaded v) :
    v.arguments.enclosing = (w.arguments.enter loaded.key []).enclosing ∧
      v.arguments.declarations = [] := by
  obtain ⟨given, -, hv⟩ := h.eq
  have hset : ∀ (given : Bindings) (t : ArgumentTable),
      (given.foldl (fun t b => t.setOverride b.1 b.2) t).enclosing = t.enclosing ∧
        (given.foldl (fun t b => t.setOverride b.1 b.2) t).declarations = t.declarations := by
    intro given
    induction given with
    | nil => exact fun t => ⟨rfl, rfl⟩
    | cons b given ih => exact fun t => ih (t.setOverride b.1 b.2)
  rw [hv]
  exact hset given (w.entered loaded.key).arguments

/-- All scopes keep to their choices from one moment to every later one. -/
theorem Reaches.allChosen {m m' : Moment σ} (h : Reaches host env source m m')
    (hm : m.walk.arguments.AllChosen) : m'.walk.arguments.AllChosen := by
  induction h with
  | refl => exact hm
  | @next nesting action rest w v _ ha ih =>
    rcases runAction_declares ha with hsame | ⟨d, hadmits, hpush⟩
    · rw [hsame]
      exact ih
    · refine ih.of_enclosing ?_ ?_
      · rw [hpush]
        rfl
      · rw [hpush]
        exact ih.current.push hadmits
  | @into nesting i rest w v loaded _ he ih =>
    obtain ⟨henclosing, hnone⟩ := he.arguments
    exact (ih.enter loaded.key).of_enclosing henclosing
      (ArgumentTable.chosen_of_no_declarations hnone)

/-- At every later moment the scope is still there, with what it has declared. -/
theorem Reaches.grows {m m' : Moment σ} (h : Reaches host env source m m') :
    m.walk.arguments.depth ≤ m'.walk.arguments.depth ∧
      m.walk.arguments.Grows (m'.walk.arguments.seenFrom m.walk.arguments.depth) := by
  induction h with
  | refl =>
    rw [ArgumentTable.seenFrom_of_le (Nat.le_refl _)]
    exact ⟨Nat.le_refl _, .refl _⟩
  | @next nesting action rest w v _ ha ih =>
    obtain ⟨hle, hgrows⟩ := ih
    have hwv : w.arguments.Grows v.arguments := (frame_of_runAction ha).arguments
    refine ⟨hwv.depth ▸ hle, ?_⟩
    by_cases hlt : m.walk.arguments.depth < v.arguments.depth
    · -- The action belongs to a description that is nested in that of the scope.
      rw [ArgumentTable.seenFrom_of_enclosing hwv.enclosing m.walk.arguments.depth_pos hlt]
      exact hgrows
    · rw [ArgumentTable.seenFrom_of_le (Nat.le_of_not_lt hlt)]
      rw [ArgumentTable.seenFrom_of_le (hwv.depth ▸ Nat.le_of_not_lt hlt)] at hgrows
      exact trans_of ArgumentTable.Grows hgrows hwv
  | @into nesting i rest w v loaded _ he ih =>
    obtain ⟨hle, hgrows⟩ : m.walk.arguments.depth ≤ w.arguments.depth ∧ _ := ih
    obtain ⟨henclosing, -⟩ := he.arguments
    have hdepth : v.arguments.depth = w.arguments.depth + 1 := by
      rw [ArgumentTable.depth, henclosing]
      rfl
    have hlt : m.walk.arguments.depth < v.arguments.depth := by omega
    refine ⟨Nat.le_of_lt hlt, ?_⟩
    rw [ArgumentTable.seenFrom_of_enclosing henclosing m.walk.arguments.depth_pos hlt,
      ArgumentTable.seenFrom_enter loaded.key hle]
    exact hgrows

/-- The arguments that a description declares from a walk on, in order: those whose conditions
hold. -/
def declared (host : Host σ) (env : Environment) (source : Source) (nesting : Nat) :
    Description → Walk σ → List ArgumentAction
  | [], _ => []
  | action :: rest, w =>
    let v := ((runAction host env source (nested host env source nesting) action).run w).2
    let later := declared host env source nesting rest v
    match action, ((decides host env action).run w).1 with
    | .argument a, .ok true => a :: later
    | _, _ => later

/-- A description that succeeds adds its arguments to the declarations of the scope, in order. -/
theorem run_declares {description : Description} {w v : Walk σ}
    (h : (run host env source nesting description).run w = (.ok (), v)) :
    ∃ new, v.arguments.declarations = w.arguments.declarations ++ new ∧
      List.Forall₂ (fun a d => ∃ default, d = ArgumentAction.declaration a default)
        (declared host env source nesting description w) new := by
  induction description generalizing w with
  | nil =>
    rw [run_eq] at h
    cases h
    exact ⟨[], by simp, .nil⟩
  | cons action rest ih =>
    rw [run_cons] at h
    obtain ⟨_, u, hu, hrest⟩ := ok_of_bind h
    have hu := inAction_ok.1 hu
    obtain ⟨new, hnew, hdeclared⟩ := ih hrest
    rcases runAction_ok hu with hprocessed | hskipped
    · obtain ⟨w', hholds, -⟩ := id hprocessed
      cases action with
      | argument a =>
        obtain ⟨default, -, hpush⟩ := hprocessed.declares
        refine ⟨a.declaration default :: new, ?_, ?_⟩
        · rw [hnew, hpush]
          exact List.append_assoc w.arguments.declarations [a.declaration default] new
        · simp only [declared, hholds, hu]
          exact .cons ⟨default, rfl⟩ hdeclared
      | process p =>
        have hsame := hprocessed.same_arguments fun a ha => by cases ha
        refine ⟨new, by rw [hnew, hsame], ?_⟩
        simpa only [declared, hu] using hdeclared
      | inclusion i =>
        have hsame := hprocessed.same_arguments fun a ha => by cases ha
        refine ⟨new, by rw [hnew, hsame], ?_⟩
        simpa only [declared, hu] using hdeclared
    · have hsame : u.arguments = w.arguments := by rw [hskipped.eq]
      have hno : ((decides host env action).run w).1 = .ok false := congrArg Prod.fst hskipped
      refine ⟨new, by rw [hnew, hsame], ?_⟩
      simpa only [declared, hno, hu] using hdeclared

end Compose

namespace Composition

open Compose

variable {host : Host σ} {env : Environment} {source : Source} {entry : Entry}
  {overrides : Bindings} {machine : σ}

theorem Reaches.of_reaches {m m' : Moment σ}
    (h : Reaches host env source entry overrides machine m)
    (h' : Compose.Reaches host env source m m') :
    Reaches host env source entry overrides machine m' := by
  obtain ⟨description, key, hfind, h⟩ := h
  exact ⟨description, key, hfind, h.trans h'⟩

theorem Reaches.after {first rest : Description} {nesting : Nat} {w v : Walk σ}
    (h : Reaches host env source entry overrides machine ⟨nesting, first ++ rest, w⟩)
    (hv : (run host env source nesting first).run w = (.ok (), v)) :
    Reaches host env source entry overrides machine ⟨nesting, rest, v⟩ := by
  obtain ⟨description, key, hfind, h⟩ := h
  exact ⟨description, key, hfind, h.after hv⟩

theorem Reaches.allChosen {m : Moment σ}
    (h : Reaches host env source entry overrides machine m) : m.walk.arguments.AllChosen := by
  obtain ⟨description, key, -, h⟩ := h
  exact h.allChosen (ArgumentTable.allChosen_ofOverrides overrides)

/-- A launch that is composed has gone through its outermost description to the end. -/
theorem ofEntry_ok {c : Composition}
    (h : (ofEntry host env source entry overrides (.fresh machine)).1 = .ok c) :
    ∃ description key v, entry.find source (host.files machine) = .ok (description, key) ∧
      (start host source description key overrides (.fresh machine)).finish host env source =
        (.ok (), v) ∧
      c = { manifest := ⟨v.processes⟩, arguments := argumentValues v.arguments } := by
  rw [ofEntry_eq, show (Session.fresh machine).machine = machine from rfl] at h
  cases hfind : entry.find source (host.files machine) with
  | error cause =>
    rw [hfind] at h
    cases h
  | ok found =>
    obtain ⟨description, key⟩ := found
    rw [hfind] at h
    simp only [ofDescription_eq] at h
    rcases hrun : (start host source description key overrides (.fresh machine)).finish host env
      source with ⟨_ | _, v⟩ <;> rw [hrun] at h <;> cases h
    exact ⟨description, key, v, rfl, hrun, rfl⟩

/-- From where an argument is declared until its description ends, also while other descriptions are
nested in it, its scope sees no value of it that is none of its choices. The outermost arguments are
reported each once, in the order in which they are declared, and no reported value is none of the
choices. -/
theorem choices_kept (host : Host σ) (env : Environment) (source : Source) (entry : Entry)
    (overrides : Bindings) (machine : σ) :
    (∀ {nesting : Nat} {a : ArgumentAction} {rest : Description} {w v : Walk σ}
        {choices : List String} {m : Moment σ},
      Reaches host env source entry overrides machine ⟨nesting, .argument a :: rest, w⟩ →
      Processed host env source nesting (.argument a) w v → a.choices = some choices →
      Compose.Reaches host env source ⟨nesting, rest, v⟩ m →
        v.arguments.Grows (m.walk.arguments.seenFrom v.arguments.depth) ∧
        ∀ value, (m.walk.arguments.seenFrom v.arguments.depth).lookup a.name = some value →
          value ∈ choices) ∧
    ∀ c, (ofEntry host env source entry overrides (.fresh machine)).1 = .ok c →
      ∃ description key, entry.find source (host.files machine) = .ok (description, key) ∧
        (c.arguments.map fun r => r.1.name).Nodup ∧
        List.Forall₂ (fun a r => ∃ default, r.1 = ArgumentAction.declaration a default)
          (declared host env source (source.nesting (host.files machine)) description
            (start host source description key overrides (.fresh machine)).walk) c.arguments ∧
        ∀ r ∈ c.arguments, ∀ choices, r.1.choices = some choices →
          ∀ value, r.2 = some value → value ∈ choices := by
  constructor
  · intro nesting a rest w v choices m hw hprocessed hchoices hm
    obtain ⟨default, -, hpush⟩ := hprocessed.declares
    obtain ⟨-, hgrows⟩ := hm.grows
    have hlater : Reaches host env source entry overrides machine m :=
      hw.of_reaches ((Compose.Reaches.refl.next hprocessed.runAction).trans hm)
    have hchosen := hlater.allChosen v.arguments.depth v.arguments.depth_pos
    -- The declaration is still one of the scope, which keeps to the choices of all of them.
    have hmem : a.declaration default ∈ v.arguments.declarations := by
      rw [hpush]
      exact List.mem_append_right _ (List.mem_singleton.2 rfl)
    refine ⟨hgrows, fun value hvalue => ?_⟩
    exact hchosen.among _ (hgrows.declarations.subset hmem) choices hchoices value hvalue
  · intro c hc
    obtain ⟨description, key, v, hfind, hfinish, rfl⟩ := ofEntry_ok hc
    have hbegin : Reaches host env source entry overrides machine
        ⟨source.nesting (host.files machine), description ++ [],
          (start host source description key overrides (.fresh machine)).walk⟩ := by
      rw [List.append_nil]
      exact ⟨description, key, hfind, .refl⟩
    have hend : Reaches host env source entry overrides machine
        ⟨source.nesting (host.files machine), [], v⟩ := hbegin.after hfinish
    have hchosen : v.arguments.Chosen := hend.allChosen.current
    obtain ⟨new, hnew, hdeclared⟩ := run_declares hfinish
    refine ⟨description, key, hfind, ?_, ?_, ?_⟩
    · have hnames : (argumentValues v.arguments).map (fun r => r.1.name) =
          v.arguments.declarations.map Declaration.name := by
        simp [argumentValues, Function.comp_def]
      rw [hnames]
      exact hchosen.distinct
    · have hdeclarations : v.arguments.declarations = new := hnew
      rw [argumentValues, hdeclarations, List.forall₂_map_right_iff]
      exact hdeclared
    · intro r hr choices hchoices value hvalue
      obtain ⟨d, hd, rfl⟩ := List.mem_map.1 hr
      exact hchosen.among d hd choices hchoices value hvalue

/-- An argument that an included description has with other choices. -/
def modeArgument : ArgumentAction where
  name := "mode"
  default := some [.text "sim"]
  choices := some ["sim", "real"]

def modeInclusion : Inclusion where
  locator := [.text "base"]
  overrides := [("mode", [.text "mock"])]

def modeDescriptions : List (String × Description) :=
  [("base", [.argument { name := "mode", choices := some ["mock"] }])]

/-- A launch to which the mode is given, before and after the mode is declared. -/
def modeWalk : Walk Unit where
  arguments := .ofOverrides [("mode", "real")]
  session := .fresh ()

def modeDeclared : Walk Unit :=
  { modeWalk with arguments := modeWalk.arguments.push (modeArgument.declaration (some "sim")) }

/-- The scope of the included description, which has another mode. -/
def modeEntered : Walk Unit :=
  { modeDeclared.entered "base" with
    arguments := (modeDeclared.entered "base").arguments.setOverride "mode" "mock" }

def modeResult : Except LaunchError Composition :=
  (ofEntry Host.echo {} (.memory modeDescriptions)
    (.described [.argument modeArgument, .inclusion modeInclusion]) [("mode", "real")]
    (.fresh ())).1

theorem mode_kept :
    modeEntered.arguments.lookup "mode" = some "mock" ∧
      (modeEntered.arguments.seenFrom 1).lookup "mode" = some "real" ∧
      (∀ value, (modeEntered.arguments.seenFrom 1).lookup "mode" = some value →
        value ∈ ["sim", "real"]) ∧
      ∃ c, modeResult = .ok c ∧
        c.arguments = [(modeArgument.declaration (some "sim"), some "real")] ∧
        (c.arguments.map fun r => r.1.name).Nodup := by
  obtain ⟨hkept, hreported⟩ := choices_kept Host.echo {} (.memory modeDescriptions)
    (.described [.argument modeArgument, .inclusion modeInclusion]) [("mode", "real")] ()
  have hstart : Reaches Host.echo {} (.memory modeDescriptions)
      (.described [.argument modeArgument, .inclusion modeInclusion]) [("mode", "real")] ()
      ⟨1, [.argument modeArgument, .inclusion modeInclusion], modeWalk⟩ := ⟨_, _, rfl, .refl⟩
  have hprocessed : Processed Host.echo {} (.memory modeDescriptions) 1 (.argument modeArgument)
      modeWalk modeDeclared := ⟨modeWalk, rfl, rfl⟩
  have henters : Enters Host.echo {} (.memory modeDescriptions) modeInclusion modeDeclared
      ⟨"base", [.argument { name := "mode", choices := some ["mock"] }]⟩ modeEntered :=
    ⟨modeDeclared, modeDeclared, rfl, rfl, rfl⟩
  obtain ⟨-, hmode⟩ := hkept hstart hprocessed rfl (Compose.Reaches.refl.into henters)
  have hinner : modeEntered.arguments.lookup "mode" = some "mock" := by decide
  have houter : (modeEntered.arguments.seenFrom 1).lookup "mode" = some "real" := by decide
  have harguments : modeResult.toOption.map Composition.arguments =
      some [(modeArgument.declaration (some "sim"), some "real")] := by decide +kernel
  cases hok : modeResult with
  | error e =>
    rw [hok] at harguments
    cases harguments
  | ok c =>
    rw [hok] at harguments
    obtain ⟨_, _, -, hnames, -⟩ := hreported c hok
    exact ⟨hinner, houter, hmode, c, rfl, Option.some.inj harguments, hnames⟩

end Composition

end LaunchPlan
