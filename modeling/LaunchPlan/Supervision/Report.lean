import LaunchPlan.ExitStatus

/-!
# What is reported of the end of processes
-/

namespace LaunchPlan

/-- How a started process ended. -/
structure ExitEvent where
  name : String
  pid : Nat
  code : Option Int
  signal : Option Int
  critical : Bool := false
  /-- It was asked to stop. -/
  requested : Bool := false
  /-- It did not stop in time and was killed. -/
  escalated : Bool := false
  deriving DecidableEq, Repr

namespace ExitEvent

def isSuccess (e : ExitEvent) : Bool :=
  e.code = some 0

def status (e : ExitEvent) : String :=
  match e.code, e.signal with
  | some code, _ => "exit code " ++ toString code
  | none, some signal => "signal " ++ toString signal
  | none, none => "unknown status"

def describe (e : ExitEvent) : String :=
  e.name ++ " (pid " ++ toString e.pid ++ ") ended with " ++ e.status ++
    if e.escalated then " after SIGKILL" else ""

end ExitEvent

/-- The ends of all processes of a launch. -/
structure StopReport where
  exits : List ExitEvent := []
  deriving DecidableEq, Repr

namespace StopReport

def get? (r : StopReport) (name : String) : Option ExitEvent :=
  r.exits.find? fun e => e.name = name

/-- The processes that had to be killed. -/
def escalated (r : StopReport) : List ExitEvent :=
  r.exits.filter ExitEvent.escalated

end StopReport

end LaunchPlan
