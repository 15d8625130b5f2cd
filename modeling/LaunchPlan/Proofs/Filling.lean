import LaunchPlan.Proofs.Frame

/-!
# Values in place of arguments

Where an argument has a value, its name and the value written out are the same: expressions have the
same text, and an action that has the value in place of the name does the same.
-/

namespace LaunchPlan

open Computing

namespace Substitution

mutual

/-- The expression with a value written in place of an argument, at any depth. -/
def fill (x value : String) : Substitution → Substitution
  | text s => text s
  | .env name default => .env name (fillDefault x value default)
  | argument name => if name = x then text value else argument name
  | command parts => command (fillList x value parts)
  | concat parts => concat (fillList x value parts)
  | pathJoin parts => pathJoin (fillList x value parts)
  | findPackageShare parts => findPackageShare (fillList x value parts)
  | select ⟨condition, cases, default⟩ =>
    select ⟨fill x value condition, fillCases x value cases, fillOption x value default⟩

def fillList (x value : String) : List Substitution → List Substitution
  | [] => []
  | part :: parts => fill x value part :: fillList x value parts

def fillDefault (x value : String) : Option (List Substitution) → Option (List Substitution)
  | none => none
  | some parts => some (fillList x value parts)

def fillCases (x value : String) : List (String × Substitution) → List (String × Substitution)
  | [] => []
  | (key, part) :: cases => (key, fill x value part) :: fillCases x value cases

def fillOption (x value : String) : Option Substitution → Option Substitution
  | none => none
  | some part => some (fill x value part)

end

section Equations

variable (x value : String)

theorem fillCases_eq (cases : List (String × Substitution)) :
    fillCases x value cases = cases.map fun c => (c.1, fill x value c.2) := by
  induction cases with
  | nil => rfl
  | cons c cases ih => rw [fillCases, ih, List.map_cons]

theorem fillOption_eq (default : Option Substitution) :
    fillOption x value default = default.map (fill x value) := by
  cases default <;> rfl

end Equations

variable {σ : Type} {host : Host σ} {env : Environment} {t : ArgumentTable} {x value : String}

theorem resolveList_fill_of {parts : List Substitution}
    (h : ∀ part ∈ parts, resolve host env t (fill x value part) = resolve host env t part) :
    resolveList host env t (fillList x value parts) = resolveList host env t parts := by
  induction parts with
  | nil => rfl
  | cons part parts ih =>
    rw [fillList, resolveList, resolveList, h part (by simp), ih fun p hp => h p (by simp [hp])]

theorem resolveEach_fill_of {parts : List Substitution}
    (h : ∀ part ∈ parts, resolve host env t (fill x value part) = resolve host env t part) :
    resolveEach host env t (fillList x value parts) = resolveEach host env t parts := by
  induction parts with
  | nil => rfl
  | cons part parts ih =>
    rw [fillList, resolveEach, resolveEach, h part (by simp), ih fun p hp => h p (by simp [hp])]

/-- Writing the value of an argument in its place changes nothing of how an expression is
resolved. -/
theorem resolve_fill (hx : t.lookup x = some value) (e : Substitution) :
    resolve host env t (fill x value e) = resolve host env t e := by
  induction e using inductionOn with
  | text s => rfl
  | env name default ih =>
    rw [fill, resolve, resolve]
    cases env.get? name with
    | some value => rfl
    | none =>
      cases default with
      | none => rfl
      | some parts => exact resolveList_fill_of (ih parts rfl)
  | argument name =>
    by_cases hname : name = x
    · rw [fill, if_pos hname, resolve, resolve, resolveArgument, hname, hx]
    · rw [fill, if_neg hname]
  | command parts ih => rw [fill, resolve, resolve, resolveList_fill_of ih]
  | concat parts ih => rw [fill, resolve, resolve, resolveList_fill_of ih]
  | pathJoin parts ih => rw [fill, resolve, resolve, resolveEach_fill_of ih]
  | findPackageShare parts ih => rw [fill, resolve, resolve, resolveList_fill_of ih]
  | select condition cases default ihc ihs ihd =>
    rw [fill, resolve_select, resolve_select, ihc, fillCases_eq, fillOption_eq]
    refine congrArg (resolve host env t condition >>= ·) (funext fun text => ?_)
    -- The same case is chosen, and its own value is written in.
    rw [show Selector.choose ⟨fill x value condition, cases.map fun c => (c.1, fill x value c.2),
        default.map (fill x value)⟩ text = _ from
      Selector.choose_map (fill x value) condition cases default text]
    cases hchoose : (⟨condition, cases, default⟩ : Selector _ _).choose text with
    | none => simp [Function.comp_def]
    | some chosen =>
      rcases Selector.mem_of_choose hchoose with ⟨c, hc, rfl⟩ | hd
      · exact ihs c hc
      · exact ihd chosen hd

theorem resolveList_fill (hx : t.lookup x = some value) (parts : List Substitution) :
    resolveList host env t (fillList x value parts) = resolveList host env t parts :=
  resolveList_fill_of fun part _ => resolve_fill hx part

end Substitution

open Substitution (fillList fillDefault)

/-- The condition with a value written in place of an argument. -/
def Condition.fill (x value : String) : Condition → Condition
  | ifTrue expression => ifTrue (fillList x value expression)
  | ifFalse expression => ifFalse (fillList x value expression)

theorem Condition.allHold_fill {σ : Type} {host : Host σ} {env : Environment} {t : ArgumentTable}
    {x value : String} (hx : t.lookup x = some value) (cs : List Condition) :
    allHold host env t (cs.map (fill x value)) = allHold host env t cs := by
  have hholds : ∀ c : Condition, (c.fill x value).holds host env t = c.holds host env t := by
    intro c
    cases c <;> simp only [fill, holds, truth, Substitution.resolveList_fill hx]
  induction cs with
  | nil => rfl
  | cons c cs ih => rw [List.map_cons, allHold, allHold, hholds, ih]

def ArgumentAction.fill (x value : String) (a : ArgumentAction) : ArgumentAction :=
  { a with
    default := fillDefault x value a.default
    conditions := a.conditions.map (Condition.fill x value) }

def ProcessTemplate.fill (x value : String) (p : ProcessTemplate) : ProcessTemplate :=
  { p with
    package := fillDefault x value p.package
    executable := fillList x value p.executable
    name := fillDefault x value p.name
    space := fillDefault x value p.space
    arguments := p.arguments.map (fillList x value)
    parameters := p.parameters.map fun b => (b.1, fillList x value b.2)
    paramFiles := p.paramFiles.map (fillList x value)
    environment := p.environment.map fun b => (b.1, fillList x value b.2)
    conditions := p.conditions.map (Condition.fill x value) }

/-- The overrides stay: they are resolved in the scope that is entered, where the argument may have
been overridden before. -/
def Inclusion.fill (x value : String) (i : Inclusion) : Inclusion :=
  { i with
    locator := fillList x value i.locator
    conditions := i.conditions.map (Condition.fill x value) }

/-- The action with a value written in place of an argument, wherever it is resolved in the scope of
the action. -/
def Action.fill (x value : String) : Action → Action
  | argument a => argument (a.fill x value)
  | process p => process (p.fill x value)
  | inclusion i => inclusion (i.fill x value)

theorem Action.conditions_fill (x value : String) (a : Action) :
    (a.fill x value).conditions = a.conditions.map (Condition.fill x value) := by
  cases a <;> rfl

variable {σ : Type} {x value : String}

/-- The walks are the same, and their scope sees the value of the argument. -/
def Walk.BothSee (x value : String) (v w : Walk σ) : Prop :=
  v = w ∧ v.arguments.lookup x = some value

namespace Compose

open Walk

variable {host : Host σ} {env : Environment} {source : Source}

theorem resolving_fill {α : Type} {r₁ r₂ : ArgumentTable → Resolving σ α}
    (h : ∀ t : ArgumentTable, t.lookup x = some value → r₁ t = r₂ t) :
    Simulates never (BothSee x value) (resolving r₁) (resolving r₂) := by
  rintro w _ ⟨rfl, hw⟩
  rw [run_resolving, run_resolving, h _ hw]
  exact .inr ⟨rfl, rfl, hw⟩

theorem resolveText_fill (expression : List Substitution) :
    Simulates never (BothSee x value) (resolveText host env (fillList x value expression))
      (resolveText host env expression) :=
  resolving_fill fun _ ht => Substitution.resolveList_fill ht expression

theorem resolveText?_fill (expression : Option (List Substitution)) :
    Simulates never (BothSee x value) (resolveText? host env (fillDefault x value expression))
      (resolveText? host env expression) := by
  cases expression with
  | none => exact .pure none
  | some expression => exact (resolveText_fill expression).map some

theorem decides_fill (action : Action) :
    Simulates never (BothSee x value) (decides host env (action.fill x value))
      (decides host env action) :=
  resolving_fill fun _ ht => by
    rw [Action.conditions_fill, Condition.allHold_fill ht]

theorem setFromFile_fill (node : String) (done : Bindings × List String)
    (file : List Substitution) :
    Simulates never (BothSee x value) (setFromFile host env node done (fillList x value file))
      (setFromFile host env node done file) := by
  refine (resolveText_fill file).bind fun path => ?_
  rintro w _ ⟨rfl, hw⟩
  rw [run_bind_ok (run_currentTree host w)]
  cases Parameters.load (host.files w.session.machine) path (some node) with
  | ok parameters => exact .inr ⟨rfl, rfl, hw⟩
  | error e => exact .inr ⟨rfl, rfl, hw⟩

theorem resolveProcess_fill (p : ProcessTemplate) :
    Simulates never (BothSee x value) (resolveProcess host env (p.fill x value))
      (resolveProcess host env p) := by
  have htext : ∀ expression, Simulates never (BothSee x value)
      (resolveText host env (fillList x value expression)) (resolveText host env expression) :=
    resolveText_fill
  have htext? : ∀ expression, Simulates never (BothSee x value)
      (resolveText? host env (fillDefault x value expression)) (resolveText? host env expression) :=
    resolveText?_fill
  simp only [resolveProcess, ProcessTemplate.fill, List.mapM_map, List.foldlM_map]
  exact (htext _).bind fun executable => (htext? _).bind fun package => (htext? _).bind fun name =>
    (htext? _).bind fun space => (Simulates.composes.mapM fun a _ => htext a).bind fun arguments =>
    (Simulates.composes.foldlM (fun done b _ => (htext b.2).bind fun _ => .pure _) _).bind
      fun inline =>
    (Simulates.composes.foldlM (fun done file _ => setFromFile_fill _ done file) _).bind
      fun loaded =>
    (Simulates.composes.mapM fun b _ => (htext b.2).bind fun _ => .pure _).bind
      fun environment => .pure _

theorem loadInclusion_fill (i : Inclusion) :
    Simulates never (BothSee x value) (loadInclusion host env source (i.fill x value))
      (loadInclusion host env source i) := by
  rw [loadInclusion_eq, loadInclusion_eq]
  refine (resolveText_fill i.locator).bind fun locator => ?_
  rintro w _ ⟨rfl, hw⟩
  exact .inr ⟨rfl, rfl, hw⟩

/-- Computations go on in the same way from what they have come to side by side. -/
theorem run_bind_fill {α β : Type} {c d : Composing σ α} {f g : α → Composing σ β}
    (h : Simulates never (BothSee x value) c d) {w : Walk σ}
    (hw : w.arguments.lookup x = some value)
    (hfg : ∀ a v, v.arguments.lookup x = some value → (f a).run v = (g a).run v) :
    (c >>= f).run w = (d >>= g).run w := by
  obtain ⟨hresult, hwalk, hsees⟩ := agree_never.1 (h w w ⟨rfl, hw⟩)
  rw [run_bind, run_bind]
  rcases hc : c.run w with ⟨r, v⟩
  rcases hd : d.run w with ⟨r', v'⟩
  rw [hc, hd] at hresult hwalk
  rw [hc] at hsees
  obtain rfl : r = r' := hresult
  obtain rfl : v = v' := hwalk
  cases r with
  | error e => rfl
  | ok a => exact hfg a v hsees

/-- An action does the same with the value of an argument written in its place. -/
theorem runAction_fill (nested : Loaded → Composing σ Unit) (action : Action) {w : Walk σ}
    (hw : w.arguments.lookup x = some value) :
    (runAction host env source nested (action.fill x value)).run w =
      (runAction host env source nested action).run w := by
  rw [runAction_eq, runAction_eq]
  refine run_bind_fill (decides_fill action) hw fun holds v hv => ?_
  cases holds with
  | false => rfl
  | true =>
    cases action with
    | argument a => exact run_bind_fill (resolveText?_fill a.default) hv fun _ _ _ => rfl
    | process p => exact run_bind_fill (resolveProcess_fill p) hv fun _ _ _ => rfl
    | inclusion i => exact run_bind_fill (loadInclusion_fill i) hv fun _ _ _ => rfl

end Compose

end LaunchPlan
