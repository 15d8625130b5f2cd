import LaunchPlan.Environment
import LaunchPlan.Error
import LaunchPlan.Files

/-!
# What resolving asks of the machine

A host runs commands and shows files; its own state has any type, so a command
may change what later ones do. A session adds the outputs kept of commands that
have succeeded, where they are kept at all.
-/

namespace LaunchPlan

/-- A machine with states of type `σ`. -/
structure Host (σ : Type) where
  /-- Runs a command line and gives what it prints, without blanks at the end. -/
  run : Environment → String → σ → Except SubstitutionError String × σ
  files : σ → Tree

/-- The state of the machine, and the outputs by command line if they are kept. -/
structure Session (σ : Type) where
  machine : σ
  outputs : Option Bindings := none

/-- Computations that may fail to resolve; the session survives a failure. -/
abbrev Resolving (σ : Type) := ExceptT SubstitutionError (StateM (Session σ))

variable {σ : Type}

namespace Session

def output? (s : Session σ) (line : String) : Option String :=
  s.outputs.bind fun outputs => outputs.get? line

def keep (s : Session σ) (line output : String) : Session σ :=
  { s with outputs := s.outputs.map fun outputs => outputs.set line output }

end Session

namespace Host

/-- The output of a command line: the one that is kept, else that of a run, which is kept if it
succeeds. -/
def output (host : Host σ) (env : Environment) (line : String) : Resolving σ String :=
  ExceptT.mk fun s =>
    match s.output? line with
    | some output => (.ok output, s)
    | none =>
      match host.run env line s.machine with
      | (.ok output, machine) => (.ok output, { s with machine }.keep line output)
      | (.error e, machine) => (.error e, { s with machine })

end Host

end LaunchPlan
