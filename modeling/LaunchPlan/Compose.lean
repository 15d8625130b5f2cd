import LaunchPlan.Parameters
import LaunchPlan.PlannedProcess
import LaunchPlan.Source

/-!
# Composing a launch

The actions of a description are processed in order, and the processes they start
are collected. An included description is processed in a scope of its own, its
processes taking the place of the inclusion. Nothing is started; a failure at any
place is the failure of the whole, and names the innermost action it arose in.
-/

namespace LaunchPlan

/-- What composing has come to. -/
structure Walk (σ : Type) where
  arguments : ArgumentTable
  /-- The keys of the descriptions being composed, outermost first. -/
  chain : List String := []
  processes : List PlannedProcess := []
  session : Session σ

/-- Computations on a walk; the walk survives a failure. -/
abbrev Composing (σ : Type) := ExceptT LaunchError (StateM (Walk σ))

/-- An argument without a value is a failure of the launch, not of the expression. -/
def LaunchError.ofResolution : SubstitutionError → LaunchError
  | .undefinedVariable name => .bare (.unresolvedArgument name)
  | e => .bare (.resolution e)

namespace Compose

variable {σ : Type}

/-- Resolves with the arguments as they are now. -/
def resolving {α : Type} (r : ArgumentTable → Resolving σ α) : Composing σ α :=
  ExceptT.mk fun w =>
    match (r w.arguments).run w.session with
    | (.ok a, session) => (.ok a, { w with session })
    | (.error e, session) => (.error (.ofResolution e), { w with session })

def failWith {α : Type} (cause : LaunchCause) : Composing σ α :=
  throw (.bare cause)

def ofExcept {α : Type} : Except LaunchError α → Composing σ α
  | .ok a => pure a
  | .error e => throw e

/-- Runs `body` in a scope of its own below a further key; both are left whatever happens. -/
def within {α : Type} (key : String) (body : Composing σ α) : Composing σ α :=
  ExceptT.mk fun w =>
    let (result, inner) :=
      body.run { w with arguments := w.arguments.enter key [], chain := w.chain ++ [key] }
    (result, { inner with arguments := inner.arguments.leave, chain := inner.chain.dropLast })

/-- Names the action that a failure of `body` arose in. -/
def inAction {α : Type} (identity : String) (body : Composing σ α) : Composing σ α :=
  ExceptT.mk fun w =>
    match body.run w with
    | (.error e, w) => (.error (e.inAction identity), w)
    | (.ok a, w) => (.ok a, w)

def modifyArguments (change : ArgumentTable → ArgumentTable) : Composing σ Unit :=
  modify fun w => { w with arguments := change w.arguments }

def addProcess (p : PlannedProcess) : Composing σ Unit :=
  modify fun w => { w with processes := w.processes ++ [p] }

variable (host : Host σ) (env : Environment)

/-- The files as they are now. -/
def currentTree : Composing σ Tree := do
  return host.files (← get).session.machine

def resolveText (expression : List Substitution) : Composing σ String :=
  resolving fun arguments => Substitution.resolveList host env arguments expression

def resolveText? : Option (List Substitution) → Composing σ (Option String)
  | none => pure none
  | some expression => some <$> resolveText host env expression

/-- Declares an argument with its default resolved. -/
def declare (a : ArgumentAction) : Composing σ Unit := do
  let default ← resolveText? host env a.default
  let w ← get
  let (result, arguments) :=
    w.arguments.declare { name := a.name, default, description := a.description, choices := a.choices }
  set { w with arguments }
  ofExcept (result.mapError .bare)

def setInline (done : Bindings) (parameter : String × List Substitution) : Composing σ Bindings :=
  return done.set parameter.1 (← resolveText host env parameter.2)

/-- Sets the parameters that a file holds for a node. -/
def setFromFile (node : String) (done : Bindings × List String) (file : List Substitution) :
    Composing σ (Bindings × List String) := do
  let path ← resolveText host env file
  match Parameters.load (← currentTree host) path (some node) with
  | .ok parameters =>
    return (parameters.foldl (fun b (key, value) => b.set key value) done.1, done.2 ++ [path])
  | .error e => failWith (.parse path e)

def setVariable (binding : String × List Substitution) : Composing σ (String × String) :=
  return (binding.1, ← resolveText host env binding.2)

/-- A process with everything in it resolved. The parameters of files come after those given
inline, and replace them. -/
def resolveProcess (p : ProcessTemplate) : Composing σ PlannedProcess := do
  let executable ← resolveText host env p.executable
  let package ← resolveText? host env p.package
  let name ← resolveText? host env p.name
  let space ← resolveText? host env p.space
  let arguments ← p.arguments.mapM (resolveText host env)
  let inline ← p.parameters.foldlM (setInline host env) []
  let (parameters, paramFiles) ←
    p.paramFiles.foldlM (setFromFile host env (name.getD executable)) (inline, [])
  let environment ← p.environment.mapM (setVariable host env)
  return { package, executable, name, space, arguments, parameters, paramFiles, environment,
           output := p.output, critical := p.critical }

/-- Sets an override of the scope that is entered. It sees the enclosing values and the overrides
before it. -/
def setOverride (binding : String × List Substitution) : Composing σ Unit := do
  let value ← resolveText host env binding.2
  modifyArguments fun arguments => arguments.setOverride binding.1 value

variable (source : Source)

/-- Loads the description an inclusion names, which must not be one of those being composed. -/
def loadInclusion (i : Inclusion) : Composing σ Loaded := do
  let locator ← resolveText host env i.locator
  let w ← get
  let loaded ← ofExcept (source.load (host.files w.session.machine) locator w.chain.getLast?)
  if loaded.key ∈ w.chain then failWith (.includeCycle (w.chain ++ [loaded.key]))
  else return loaded

/-- Processes an action; `nested` composes included descriptions. -/
def runAction (nested : Loaded → Composing σ Unit) (action : Action) : Composing σ Unit := do
  if ← resolving fun arguments => Condition.allHold host env arguments action.conditions then
    match action with
    | .argument a => declare host env a
    | .process p => do addProcess (← resolveProcess host env p)
    | .inclusion i => do
      let loaded ← loadInclusion host env source i
      within loaded.key do
        i.overrides.forM (setOverride host env)
        nested loaded
  else return

def runActions (nested : Loaded → Composing σ Unit) (description : Description) :
    Composing σ Unit :=
  description.forM fun action => inAction action.identity (runAction host env source nested action)

/-- Composes a description; at most `nesting` descriptions may be included one in another. -/
def run : (nesting : Nat) → Description → Composing σ Unit
  | 0 => runActions host env source fun loaded => failWith (.includeTooDeep loaded.key)
  | nesting + 1 => runActions host env source fun loaded => run nesting loaded.description

end Compose

/-- A composed launch: its processes, and the arguments of the outermost description with their
values. -/
structure Composition where
  manifest : Manifest
  arguments : List (Declaration × Option String)

namespace Composition

variable {σ : Type} (host : Host σ) (env : Environment) (source : Source)

/-- The arguments of the current scope with their values. -/
def argumentValues (t : ArgumentTable) : List (Declaration × Option String) :=
  t.declarations.map fun d => (d, t.lookup d.name)

/-- Composes a description, which has a key if it was loaded. -/
def ofDescription (description : Description) (key : Option String) (overrides : Bindings)
    (session : Session σ) : Except LaunchError Composition × Session σ :=
  let start : Walk σ :=
    { arguments := .ofOverrides overrides, chain := key.toList, session }
  let nesting := source.nesting (host.files session.machine)
  match (Compose.run host env source nesting description).run start with
  | (.ok _, w) =>
    (.ok { manifest := ⟨w.processes⟩, arguments := argumentValues w.arguments }, w.session)
  | (.error e, w) => (.error e, w.session)

/-- Loads a description and composes it. -/
def ofLocator (locator : String) (overrides : Bindings) (session : Session σ) :
    Except LaunchError Composition × Session σ :=
  match source.load (host.files session.machine) locator none with
  | .error e => (.error e, session)
  | .ok loaded =>
    ofDescription host env source loaded.description (some loaded.key) overrides session

end Composition

end LaunchPlan
