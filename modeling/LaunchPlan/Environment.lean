import LaunchPlan.Bindings
import LaunchPlan.Text.Blank

/-!
# The environment of a launch

The variables that expressions and started programs see, and how long a command
inside an expression may take. Durations are in nanoseconds.
-/

namespace LaunchPlan

structure Environment where
  bindings : Bindings := []
  /-- How long one command may take. -/
  commandTimeout : Nat := 30000000000
  deriving DecidableEq, Repr, Inhabited

/-- The non-empty pieces between colons. -/
def searchEntries (value : String) : List String :=
  (value.toList.splitOn ':').filterMap fun piece =>
    if piece.isEmpty then none else some (String.ofList piece)

namespace Environment

def get? (env : Environment) (name : String) : Option String :=
  env.bindings.get? name

def withVariable (env : Environment) (name value : String) : Environment :=
  { env with bindings := env.bindings.set name value }

def withoutVariable (env : Environment) (name : String) : Environment :=
  { env with bindings := env.bindings.erase name }

def withCommandTimeout (env : Environment) (nanos : Nat) : Environment :=
  { env with commandTimeout := nanos }

/-- The entries of a search path such as `AMENT_PREFIX_PATH`; none when it is not set. -/
def searchPath (env : Environment) (name : String) : List String :=
  (env.get? name).elim [] searchEntries

end Environment

end LaunchPlan
