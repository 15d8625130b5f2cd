import LaunchPlan.CommandLine.Words
import LaunchPlan.Host
import LaunchPlan.Machine.Step

/-!
# Commands in expressions

A command line is run to its end, which is reached when the program has ended and
nothing may still write to its outputs. A command that takes too long is killed
with all programs it has started.
-/

namespace LaunchPlan.Machine

/-- What a command has left when it is over. -/
structure Outputs where
  status : ExitStatus
  output : Octets
  errors : Octets

namespace Outputs

/-- The output of a command that succeeded, without blanks at its end. -/
def result (command : String) (o : Outputs) : Except SubstitutionError String :=
  if o.status.isSuccess then
    .ok (String.ofList (Text.trimEnd o.output.toText.toList))
  else
    .error (.commandFailed command o.status (String.ofList (Text.trim o.errors.toText.toList)))

end Outputs

/-- Whether a program that was started with these pipes is over. -/
def isOver (pid output errors : Nat) (m : Machine) : Bool :=
  !(m.isWritten output || m.isWritten errors) && !((m.job? pid).any Job.isRunning)

/-- Waits for a program to be over, at most for some time. -/
def await (m : Machine) (pid output errors time : Nat) : Option Outputs × Machine :=
  let limit := m.now + time
  let m := runUntil (isOver pid output errors) limit (time / quantum + time + 1) m
  if isOver pid output errors m then
    let status := ((m.job? pid).bind Job.status?).getD .unknown
    let (out, m) := m.drain output
    let (err, m) := m.drain errors
    (some ⟨status, out, err⟩, m.reap pid)
  else (none, (m.sendGroup Signal.kill pid).reap pid)

/-- Runs a command line and gives what it prints, without blanks at the end. -/
def run (env : Environment) (command : String) (m : Machine) :
    Except SubstitutionError String × Machine :=
  match CommandLine.words command with
  | .error e => (.error e, m)
  | .ok [] => (.error (.invalidCommandLine .empty), m)
  | .ok (program :: arguments) =>
    let (output, m) := m.newPipe true
    let (errors, m) := m.newPipe true
    let request : Request :=
      { program, arguments, environment := env.bindings
        output := .writer output, errors := .writer errors }
    match m.spawn request with
    | .error e => (.error (.commandNotFound command e), m)
    | .ok (pid, m) =>
      match m.await pid output errors env.commandTimeout with
      | (some outputs, m) => (outputs.result command, m)
      | (none, m) => (.error (.commandTimeout command env.commandTimeout), m)

/-- The machine as a host. -/
def host : Host Machine where
  run := run
  files := Machine.tree

end LaunchPlan.Machine
