import LaunchPlan.Bindings
import LaunchPlan.Error

/-!
# Launch arguments

Every description declares its arguments in a scope of its own. The outermost
scope holds the overrides of the caller, each inner one those of an include.

A name has the value that its own scope overrides it with; else the value it has
in the enclosing scope; else the default its own scope declares.
-/

namespace LaunchPlan

structure Declaration where
  name : String
  default : Option String := none
  description : String := ""
  choices : Option (List String) := none
  deriving DecidableEq, Repr, Inhabited

structure Scope where
  label : String
  overrides : Bindings := []
  declarations : List Declaration := []
  deriving DecidableEq, Repr, Inhabited

namespace Scope

def declaration? (s : Scope) (name : String) : Option Declaration :=
  s.declarations.find? fun d => d.name = name

def override? (s : Scope) (name : String) : Option String :=
  s.overrides.get? name

def default? (s : Scope) (name : String) : Option String :=
  (s.declaration? name).bind Declaration.default

/-- The value of `name` in a scope, where the scopes around it follow from the inside out. -/
def lookup (name : String) : Scope → List Scope → Option String
  | s, [] => s.override? name <|> s.default? name
  | s, outer :: rest => s.override? name <|> lookup name outer rest <|> s.default? name

end Scope

/-- The current scope and the scopes around it, from the inside out. -/
structure ArgumentTable where
  current : Scope
  enclosing : List Scope := []
  deriving DecidableEq, Repr, Inhabited

namespace ArgumentTable

/-- The table of a launch with these overrides. -/
def ofOverrides (overrides : Bindings) : ArgumentTable :=
  { current := { label := "<root>", overrides } }

/-- The value of `name` as seen from the current scope. -/
def lookup (t : ArgumentTable) (name : String) : Option String :=
  Scope.lookup name t.current t.enclosing

def resolve (t : ArgumentTable) (name : String) : Except LaunchCause String :=
  match t.lookup name with
  | some value => .ok value
  | none => .error (.unresolvedArgument name)

/-- The table with a further declaration in the current scope. -/
def push (t : ArgumentTable) (d : Declaration) : ArgumentTable :=
  { t with current := { t.current with declarations := t.current.declarations ++ [d] } }

/-- Whether the value of a declared argument is one of its choices, as far as it has both. -/
def checkChoice (t : ArgumentTable) (d : Declaration) : Except LaunchCause Unit :=
  match d.choices, t.lookup d.name with
  | some choices, some value =>
    if value ∈ choices then .ok () else .error (.invalidChoice d.name value choices)
  | _, _ => .ok ()

/-- Declares an argument in the current scope. A name that is declared there already is refused. A
declaration whose value is none of its choices fails, and stays in the table. -/
def declare (t : ArgumentTable) (d : Declaration) : Except LaunchCause Unit × ArgumentTable :=
  if (t.current.declaration? d.name).isSome then (.error (.duplicateArgument d.name), t)
  else ((t.push d).checkChoice d, t.push d)

/-- Enters a scope for an included description. -/
def enter (t : ArgumentTable) (label : String) (overrides : Bindings) : ArgumentTable :=
  { current := { label, overrides }, enclosing := t.current :: t.enclosing }

/-- Overrides a name in the current scope. -/
def setOverride (t : ArgumentTable) (name value : String) : ArgumentTable :=
  { t with current := { t.current with overrides := t.current.overrides.set name value } }

/-- Leaves the current scope. The outermost scope is never left. -/
def leave (t : ArgumentTable) : ArgumentTable :=
  match t.enclosing with
  | [] => t
  | outer :: rest => { current := outer, enclosing := rest }

/-- How many scopes there are, the outermost included. -/
def depth (t : ArgumentTable) : Nat :=
  t.enclosing.length + 1

/-- The declarations of the current scope, in order. -/
def declarations (t : ArgumentTable) : List Declaration :=
  t.current.declarations

@[simp] theorem leave_enter (t : ArgumentTable) (label : String) (overrides : Bindings) :
    (t.enter label overrides).leave = t := rfl

@[simp] theorem depth_enter (t : ArgumentTable) (label : String) (overrides : Bindings) :
    (t.enter label overrides).depth = t.depth + 1 := rfl

@[simp] theorem depth_setOverride (t : ArgumentTable) (name value : String) :
    (t.setOverride name value).depth = t.depth := rfl

theorem depth_pos (t : ArgumentTable) : 0 < t.depth :=
  Nat.succ_pos _

end ArgumentTable

end LaunchPlan
