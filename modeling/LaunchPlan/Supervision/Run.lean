import LaunchPlan.Machine.Step
import LaunchPlan.Supervision.Launch
import LaunchPlan.Supervision.Output

/-!
# Running a launch

A launch is run on a machine: each step of the launch is taken as soon as it is
possible, and when none is, the machine goes on.
-/

namespace LaunchPlan

/-- What is done with a launch once all its processes are started. -/
inductive Conduct
  | stop
  /-- That many ends are waited for before the launch is stopped. -/
  | next (count : Nat)
  /-- The launch is stopped when all processes have ended, or one that is critical, or after a number
  of ends. -/
  | watch (limit : Option Nat)

namespace Conduct

/-- How long a process that is asked to stop has before it is killed. -/
def defaultGrace : Nat := 5000000000

end Conduct

/-- A launch on a machine. -/
structure Supervision where
  machine : Machine
  launch : Launch
  environment : Environment
  grace : Nat
  conduct : Conduct
  /-- The lines for the log that have to come before anything is done with the launch. -/
  awaitedLines : Nat := 0
  /-- The ends of grace periods, by child. -/
  deadlines : List (Nat × Nat) := []
  streams : List LineStream := []
  forwarded : List ForwardedLine := []
  /-- What waiting for the next end has given. -/
  seen : List (Option ExitEvent) := []

namespace Supervision

/-- The launch after a step, if it is possible. -/
def advance? (s : Supervision) (step : Launch.Step) : Option Supervision :=
  (s.launch.step step).map fun launch => { s with launch }

/-! ## Output -/

/-- Passes on what a stream brings. -/
def forwardStream (m : Machine) (stream : LineStream) : List ForwardedLine × LineStream × Machine :=
  if stream.isOpen then
    let (octets, m) := m.drain stream.pipe
    let (lines, stream) := stream.feed octets
    let (last, stream) :=
      if stream.isOpen && !m.isWritten stream.pipe then stream.close else ([], stream)
    let m := if stream.isOpen then m
      else m.changePipe stream.pipe fun p => { p with watched := false }
    (lines ++ last, stream, m)
  else ([], stream, m)

def forwardStreams (m : Machine) : List LineStream →
    List ForwardedLine × List LineStream × Machine
  | [] => ([], [], m)
  | stream :: streams =>
    let (lines, stream, m) := forwardStream m stream
    let (more, streams, m) := forwardStreams m streams
    (lines ++ more, stream :: streams, m)

/-- Passes on what the processes have written. -/
def forward (s : Supervision) : Supervision :=
  let (lines, streams, machine) := forwardStreams s.machine s.streams
  { s with machine, streams, forwarded := s.forwarded ++ lines }

/-! ## Steps -/

/-- Starts the next process. -/
def start? (s : Supervision) (p : PlannedProcess) : Option Supervision :=
  let (output, m) := s.machine.newPipe true
  let (errors, m) := m.newPipe true
  let words := p.commandLine m.tree.isFile s.environment
  let request : Machine.Request :=
    { program := words.headD ""
      arguments := words.tail
      environment := p.environment.foldl (fun b (n, v) => b.set n v) s.environment.bindings
      output := .writer output
      errors := .writer errors }
  match m.spawn request with
  | .error e => s.advance? (.start (.error e))
  | .ok (pid, m) =>
    let added : List LineStream := [
      { pipe := output, name := p.displayName, destination := .ofOutput p.output },
      { pipe := errors, name := p.displayName, destination := .errors }]
    { s with machine := m, streams := s.streams ++ added }.advance? (.start (.ok pid))

/-- Notices that a child has ended on the machine. -/
def end? (s : Supervision) (child : Nat) (c : Child) : Option Supervision := do
  if c.status.isSome then none
  else
    let status ← (s.machine.job? c.pid).bind Machine.Job.status?
    { s with machine := s.machine.reap c.pid }.advance? (.exit child status)

/-- Asks a child to stop. -/
def heed? (s : Supervision) (child : Nat) (c : Child) : Option Supervision := do
  let s ← s.advance? (.heed child)
  return { s with
    machine := s.machine.sendGroup Machine.Signal.terminate c.pid
    deadlines := (child, s.machine.now + s.grace) :: s.deadlines }

/-- Ends the grace period of a child when its time has come. -/
def expire? (s : Supervision) (child : Nat) : Option Supervision := do
  let deadline ← s.deadlines.lookup child
  if s.machine.now < deadline then none else s.advance? (.expire child)

/-- Kills a child that was given up. -/
def kill? (s : Supervision) (child : Nat) (c : Child) : Option Supervision := do
  let s ← s.advance? (.kill child)
  return { s with machine := s.machine.sendGroup Machine.Signal.kill c.pid }

/-- A step of the watching of a child. -/
def watch? (s : Supervision) (child : Nat) : Option Supervision := do
  let c ← s.launch.children[child]?
  s.end? child c <|> s.advance? (.notice child) <|> s.heed? child c <|> s.expire? child <|>
    s.advance? (.giveUp child) <|> s.kill? child c

/-- A step of what is done with a complete launch. -/
def conduct? (s : Supervision) : Option Supervision :=
  match s.conduct with
  | .stop | .next 0 => s.advance? .stop
  | .next (count + 1) =>
    match s.launch.pending with
    | e :: _ =>
      (s.advance? .take).map fun s => { s with conduct := .next count, seen := s.seen ++ [some e] }
    | [] =>
      if s.launch.isClosed then some { s with conduct := .next count, seen := s.seen ++ [none] }
      else none
  | .watch limit =>
    if limit.any (· ≤ s.launch.taken.length) then s.advance? .stop else s.advance? .watch

/-- The lines that have been sent to the log. -/
def debugLines (s : Supervision) : Nat :=
  (s.forwarded.filter fun line => line.destination = .debug).length

/-- A step of the launch apart from its children. -/
def stage? (s : Supervision) : Option Supervision :=
  match s.launch.stage with
  | .starting (p :: _) => s.start? p
  | .starting [] => if s.debugLines < s.awaitedLines then none else s.conduct?
  | .stopping _ => s.advance? .collect <|> s.advance? .conclude
  | .over _ => none

/-- Some step that is possible. -/
def step? (s : Supervision) : Option Supervision :=
  s.stage? <|> (List.range s.launch.children.length).findSome? s.watch?

/-- Whether the launch is over and all that was written is passed on. -/
def isOver (s : Supervision) : Bool :=
  match s.launch.stage with
  | .over _ => s.streams.all fun stream => !stream.isOpen
  | _ => false

/-- The moment after which a machine on which nothing happens is left alone. -/
def horizon : Nat := 1000000000000000

/-- The next end of a grace period. -/
def nextDeadline (s : Supervision) : Nat :=
  (s.deadlines.filterMap fun (_, time) =>
    if s.machine.now < time then some time else none).foldl min horizon

/-- Steps until the launch is over. -/
def drive : (steps : Nat) → Supervision → Supervision
  | 0, s => s
  | steps + 1, s =>
    let s := s.forward
    match s.step? with
    | some s => drive steps s
    | none =>
      if s.isOver || horizon ≤ s.machine.now then s
      else drive steps { s with machine := s.machine.step s.nextDeadline }

/-- Launches a manifest on a machine, and runs it to its end. -/
def ofManifest (m : Machine) (environment : Environment) (manifest : Manifest) (grace : Nat)
    (conduct : Conduct) (awaitedLines : Nat) : Supervision :=
  drive horizon
    { machine := m, launch := .ofManifest manifest, environment, grace, conduct, awaitedLines }

/-- What the launch has come to, if it is over. -/
def result? (s : Supervision) : Option (Except LaunchCause StopReport) :=
  match s.launch.stage with
  | .over result => some result
  | _ => none

end Supervision

end LaunchPlan
