import LaunchPlan.Machine.State
import LaunchPlan.Shell.Expand

/-!
# A shell at work

A shell acts on its own state and on the machine it runs on. An action either
comes to its end, so that the shell goes on with its next step, or it halts the
step for one of the reasons in `Halt`.
-/

namespace LaunchPlan.Shell

open Machine (Activity Handle Handles Job Signal.description)

structure Scene where
  machine : Machine
  /-- The program that the shell runs as. -/
  pid : Nat
  shell : State

/-- Why a step does not come to its end. -/
inductive Halt
  /-- There is nothing to do yet. -/
  | idle
  | ends (code : Nat)
  | becomes (activity : Activity)
  | killed (signal : Nat)
  /-- A builtin fails with a message and the status 2. -/
  | failure (said : Octets)
  /-- What a builtin prints cannot be written. -/
  | unwritten

abbrev Acting := ExceptT Halt (StateM Scene)

def Acting.run (action : Acting Unit) (scene : Scene) : Except Halt Unit × Scene :=
  (ExceptT.run action).run scene

def shell : Acting State := do
  return (← get).shell

def machine : Acting Machine := do
  return (← get).machine

def pid : Acting Nat := do
  return (← get).pid

def changeShell (change : State → State) : Acting Unit :=
  modify fun scene => { scene with shell := change scene.shell }

def changeMachine (change : Machine → Machine) : Acting Unit :=
  modify fun scene => { scene with machine := change scene.machine }

def changeJob (change : Job → Job) : Acting Unit :=
  modify fun scene => { scene with machine := scene.machine.changeJob scene.pid change }

def job? : Acting (Option Job) := do
  let scene ← get
  return scene.machine.job? scene.pid

/-- The files as the shell sees them. -/
def view : Acting Tree := do
  let scene ← get
  return scene.machine.view scene.pid

def push (frame : Frame) : Acting Unit :=
  changeShell fun s => s.push frame

/-! ## Output -/

/-- Writes octets; a pipe that no one reads kills the shell. -/
def write (descriptor : Nat) (octets : Octets) : Acting Unit := do
  let scene ← get
  match scene.machine.write scene.pid descriptor octets with
  | .ok machine => set { scene with machine }
  | .error e =>
    let ignored := (scene.machine.job? scene.pid).any fun j => Machine.Signal.brokenPipe ∈ j.ignored
    if e = Machine.brokenPipe && !ignored then throw (.killed Machine.Signal.brokenPipe)
    else throw .unwritten

/-- Writes a message, if that is possible. -/
def report (octets : Octets) : Acting Unit := do
  try write 2 octets
  catch
    | .unwritten => pure ()
    | other => throw other

/-- Complains, as one of those who speak for the shell, about something in a line of the script. -/
def complainAs (speaker : Option Octets) (line : Nat) (said : Octets) : Acting Unit := do
  let s ← shell
  let speaker := speaker.elim [] (· ++ ": ".toList)
  report (s.title ++ ": ".toList ++ State.decimalText line ++ ": ".toList ++ speaker ++ said ++
    ['\n'])

def complain (said : Octets) : Acting Unit := do
  let s ← shell
  complainAs s.speaker s.line said

/-- Complains as the builtin `name`. -/
def complainOf (name : String) (said : Octets) : Acting Unit := do
  complainAs (some name.toList) (← shell).line said

/-! ## Redirections -/

/-- How a failure to open a file is explained. -/
def openFailure (creating : Bool) (e : IoError) : Octets :=
  match e with
  | .notFound | .notADirectory =>
    (if creating then "Directory nonexistent" else "No such file").toList
  | .os number => (IoError.name number).toList
  | other => other.message.toList

/-- The handle that a redirection asks for; none if the descriptor is to be closed. -/
def opened (kind : RedirectionKind) (target : Octets) :
    Acting (Except Octets (Option Handle)) := do
  let scene ← get
  let take (creating : Bool) (result : Except IoError (Handle × Machine)) :
      Acting (Except Octets (Option Handle)) := do
    match result with
    | .ok (handle, machine) =>
      set { scene with machine }
      return .ok (some handle)
    | .error e =>
      return .error ((if creating then "cannot create " else "cannot open ").toList ++ target ++
        ": ".toList ++ openFailure creating e)
  let path := target.toText
  match kind with
  | .read => take false (scene.machine.openToRead scene.pid path)
  | .write =>
    if scene.shell.isOn 'C' && (scene.machine.view scene.pid).isFile path then
      return .error ("cannot create ".toList ++ target ++ ": File exists".toList)
    else take true (scene.machine.openToWrite scene.pid path true false)
  | .overwrite => take true (scene.machine.openToWrite scene.pid path true false)
  | .append => take true (scene.machine.openToWrite scene.pid path false true)
  | .readWrite => take true (scene.machine.openToWrite scene.pid path false false)
  | .duplicate =>
    match target with
    | ['-'] => return .ok none
    | [c] =>
      if c.isDigit then
        match scene.machine.handle? scene.pid (c.toNat - 48) with
        | some handle => return .ok (some handle)
        | none => return .error (target ++ ": Bad file descriptor".toList)
      else badDescriptor
    | _ => badDescriptor
  | .content =>
    let (pipe, machine) := scene.machine.newPipe false
    set { scene with machine := machine.changePipe pipe fun p => { p with content := target } }
    return .ok (some (.reader pipe))
where
  badDescriptor : Acting (Except Octets (Option Handle)) := do
    complain "Syntax error: Bad fd number".toList
    throw (.ends 2)

/-- Redirects a descriptor and gives what it stood for. -/
def redirect (descriptor : Nat) (kind : RedirectionKind) (target : Octets) :
    Acting (Except Octets (Option Handle)) := do
  match ← opened kind target with
  | .error said => return .error said
  | .ok handle =>
    let old := (← machine).handle? (← pid) descriptor
    changeJob fun j =>
      { j with handles := j.handles.set descriptor handle, kept := old.toList ++ j.kept }
    return .ok old

/-- Lets go of handles that were replaced. -/
def forget (saved : List (Nat × Option Handle)) : Acting Unit :=
  saved.forM fun (_, old) =>
    changeJob fun j => { j with kept := old.elim j.kept j.kept.erase }

/-- Undoes redirections, the last one first. -/
def restoreHandles (saved : List (Nat × Option Handle)) : Acting Unit := do
  saved.forM fun (descriptor, old) =>
    changeJob fun j => { j with handles := j.handles.set descriptor old }
  forget saved

/-! ## Leaving commands -/

/-- What is put right when a frame is left. -/
def leave : Frame → Acting Unit
  | .call positional locals => changeShell fun s => { s.unshadow locals with positional }
  | .restore saved shadowed => do
    restoreHandles saved
    changeShell fun s => s.unshadow shadowed
  | .speaking speaker => changeShell fun s => { s with speaker }
  | .trapped status => changeShell fun s => { s with status }
  | .invoke invocation
  | .expand _ (.field invocation)
  | .expand _ (.target invocation ..)
  | .expand _ (.value invocation ..) => do
    restoreHandles invocation.saved
    changeShell fun s => s.unshadow invocation.shadowed
  | _ => pure ()

/-- Leaves frames from the top on, as many as `last` is not true of; the frame it is true of is the
topmost then. -/
def leaveUntil (last : Frame → Bool) : Acting Unit := do
  let stack := (← shell).stack
  let left := stack.takeWhile fun frame => !last frame
  left.forM leave
  changeShell fun s => { s with stack := stack.drop left.length }

/-- Sets the status of a command that is complete. A failure may end the shell. -/
def settle (status : Nat) : Acting Unit := do
  changeShell fun s => { s with status }
  let s ← shell
  if status ≠ 0 && s.isOn 'e' && !s.isTested then throw (.ends status)

/-! ## Other programs -/

/-- Starts a program as a child of the shell. -/
def startChild (change : Job → Job) : Acting Nat := do
  let scene ← get
  match scene.machine.job? scene.pid with
  | none => throw (.ends 2)
  | some j =>
    let child := change { j with parent := scene.pid, arrived := [], kept := [] }
    let (number, machine) := scene.machine.start child
    set { scene with machine, shell := { scene.shell with ended := scene.shell.ended.tail } }
    return number

/-- Starts a shell that runs a command, of which it may be tested whether it fails. -/
def fork (tested : Bool) (command : Command) (change : Job → Job) : Acting Nat := do
  let s ← shell
  startChild fun j => change { j with activity := .shell (s.fork (tested && s.isTested) command) }

/-- Whether nothing is left to do after the current command. -/
def isLast : Acting Bool := do
  let s ← shell
  return s.stack.isEmpty && !s.hasTraps

/-- The status that the shell has for the end of a program. -/
def statusOf : ExitStatus → Nat
  | .exited code => code
  | .signaled signal => 128 + signal
  | .unknown => 127

/-- The status of a child that has ended, of which nothing is kept then. -/
def reaped? (child : Nat) : Acting (Option ExitStatus) := do
  let scene ← get
  match (scene.machine.job? child).bind Job.status? with
  | none => return none
  | some status =>
    set { scene with
      machine := scene.machine.reap child
      shell := { scene.shell with jobs := scene.shell.jobs.filter (· ≠ child) } }
    return some status

/-- Says that a program was killed. -/
def announce : ExitStatus → Acting Unit
  | .signaled signal =>
    if signal = Machine.Signal.interrupt || signal = Machine.Signal.brokenPipe then pure ()
    else report ((Machine.Signal.description signal).toList ++ ['\n'])
  | _ => pure ()

/-- Runs the commands of a text. -/
def runText (text : Octets) : Acting Unit :=
  push (.script { rest := text })

end LaunchPlan.Shell
