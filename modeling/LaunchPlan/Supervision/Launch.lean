import LaunchPlan.Error
import LaunchPlan.PlannedProcess
import LaunchPlan.Supervision.Report

/-!
# A launch

The processes of a manifest are started in order. Each child is watched until it
ends; its end is put into a queue, from which it is taken once. A launch is
stopped by asking every child to stop. When the grace period is over, a child is
looked after once more; if it still runs then it is killed, and with it the other
programs of its group.

A launch is a state, and everything that can happen to it a step. Steps that are
possible at the same time may come in any order.
-/

namespace LaunchPlan

/-- How far the watching of a child has come. -/
inductive Watch
  | waiting
  /-- The child was asked to stop, and the grace period runs. -/
  | stopping
  /-- The grace period is over. -/
  | expired
  /-- The child still ran after the grace period. -/
  | killing
  /-- The child was killed. -/
  | killed
  /-- The end of the child was noticed. -/
  | done
  deriving DecidableEq, Repr

/-- A started process. -/
structure Child where
  name : String
  pid : Nat
  critical : Bool
  /-- How it ended; none while it runs. -/
  status : Option ExitStatus := none
  /-- How many other programs of its group run. -/
  followers : Nat := 0
  /-- Its group was asked to stop. -/
  asked : Bool := false
  watch : Watch := .waiting
  deriving DecidableEq, Repr

namespace Child

/-- What is reported of the end of a child. -/
def event (c : Child) (status : ExitStatus) : ExitEvent where
  name := c.name
  pid := c.pid
  code := status.code?.map Int.ofNat
  signal := status.signal?.map Int.ofNat
  critical := c.critical
  requested := c.watch ≠ .waiting
  escalated := c.watch = .killed

/-- Whether the child is the one that has a process number, as long as nobody has noticed its
end. -/
def holds (c : Child) (pid : Nat) : Bool :=
  c.pid = pid && c.watch ≠ .done

end Child

/-- What is being done with a launch. -/
inductive Stage
  /-- These processes are still to be started; with none left, the launch is complete. -/
  | starting (rest : List PlannedProcess)
  /-- It is being stopped, perhaps because of a failure. -/
  | stopping (failure : Option LaunchCause)
  | over (result : Except LaunchCause StopReport)

structure Launch where
  stage : Stage
  children : List Child := []
  /-- Ends that were noticed and not yet taken, the first in front. -/
  pending : List ExitEvent := []
  /-- Ends that were taken, in this order. -/
  taken : List ExitEvent := []
  stopRequested : Bool := false

namespace Launch

/-- What can happen to a launch. Children are named by their place in the order of starting. -/
inductive Step
  /-- The next process is started and has a number, or it cannot be started. -/
  | start (result : Except IoError Nat)
  /-- A child ends. -/
  | exit (child : Nat) (status : ExitStatus)
  /-- A program joins the group of a child, which was not killed. -/
  | join (child : Nat)
  /-- A program of the group of a child ends. -/
  | part (child : Nat)
  /-- The end of a child is noticed. -/
  | notice (child : Nat)
  /-- A child is asked to stop because the launch is to be stopped. -/
  | heed (child : Nat)
  /-- The grace period of a child is over. -/
  | expire (child : Nat)
  /-- A child is looked after when its grace period is over, and still runs. -/
  | giveUp (child : Nat)
  /-- A child that was given up is killed, with its group. -/
  | kill (child : Nat)
  /-- The next end is taken. -/
  | take
  /-- The next end is taken and may end the launch, as does that there will be none. -/
  | watch
  /-- The launch is to be stopped. -/
  | stop
  /-- An end is taken while the launch is being stopped. -/
  | collect
  /-- All ends were taken. -/
  | conclude

def ofManifest (m : Manifest) : Launch :=
  { stage := .starting m.processes }

/-- Whether there will be no more ends to take. -/
def isClosed (l : Launch) : Bool :=
  l.pending.isEmpty && l.children.all fun c => c.watch = .done

/-- The place of the child that an end belongs to, by its number. -/
def place (l : Launch) (e : ExitEvent) : Nat :=
  l.children.findIdx fun c => c.pid = e.pid

/-- The ends taken so far, by the places of their children. -/
def report (l : Launch) : StopReport :=
  ⟨l.taken.mergeSort fun a b => l.place a ≤ l.place b⟩

/-- Changes a child, if `change` applies to it. -/
def changeChild (l : Launch) (child : Nat) (change : Child → Option Child) : Option Launch := do
  let c ← l.children[child]?
  let c ← change c
  return { l with children := l.children.set child c }

def beginStop (l : Launch) (failure : Option LaunchCause) : Launch :=
  { l with stage := .stopping failure, stopRequested := true }

/-- Starts the next process. -/
def start (l : Launch) (result : Except IoError Nat) : Option Launch :=
  match l.stage, result with
  | .starting (p :: rest), .ok pid =>
    if l.children.any fun c => c.holds pid then none
    else
      some { l with
        stage := .starting rest
        children := l.children ++ [{ name := p.displayName, pid, critical := p.critical }] }
  | .starting (p :: _), .error e => some (l.beginStop (some (.spawn p.displayName e)))
  | _, _ => none

/-- Notices the end of a child; of one that is given up only when it was killed. -/
def notice (l : Launch) (child : Nat) : Option Launch := do
  let c ← l.children[child]?
  let status ← c.status
  if c.watch = .done || c.watch = .killing then none
  else
    return { l with
      children := l.children.set child { c with watch := .done }
      pending := l.pending ++ [c.event status] }

/-- Takes the next end, if the launch goes on. -/
def takeNext (l : Launch) : Option (ExitEvent × Launch) :=
  match l.pending with
  | [] => none
  | e :: pending => some (e, { l with pending, taken := l.taken ++ [e] })

def isComplete (l : Launch) : Bool :=
  match l.stage with
  | .starting [] => true
  | _ => false

/-- What a step makes of a launch; none if it is not possible. -/
def step (l : Launch) : Step → Option Launch
  | .start result => l.start result
  | .exit child status =>
    l.changeChild child fun c => if c.status.isNone then some { c with status := some status } else none
  | .join child =>
    l.changeChild child fun c =>
      if c.watch ≠ .killed && (c.status.isNone || 0 < c.followers) then
        some { c with followers := c.followers + 1 }
      else none
  | .part child =>
    l.changeChild child fun c =>
      if 0 < c.followers then some { c with followers := c.followers - 1 } else none
  | .notice child => l.notice child
  | .heed child =>
    if l.stopRequested then
      l.changeChild child fun c =>
        if c.watch = .waiting then some { c with watch := .stopping, asked := true } else none
    else none
  | .expire child =>
    l.changeChild child fun c =>
      if c.watch = .stopping then some { c with watch := .expired } else none
  | .giveUp child =>
    l.changeChild child fun c =>
      if c.watch = .expired && c.status.isNone then some { c with watch := .killing } else none
  | .kill child =>
    l.changeChild child fun c =>
      if c.watch = .killing then some { c with watch := .killed, followers := 0 } else none
  | .take => if l.isComplete then l.takeNext.map Prod.snd else none
  | .watch =>
    if l.isComplete then
      match l.takeNext with
      | some (e, l) =>
        some (if e.critical then l.beginStop (some (.unexpectedExit e.name e.status)) else l)
      | none => if l.isClosed then some (l.beginStop none) else none
    else none
  | .stop => if l.isComplete then some (l.beginStop none) else none
  | .collect =>
    match l.stage with
    | .stopping _ => l.takeNext.map Prod.snd
    | _ => none
  | .conclude =>
    match l.stage with
    | .stopping failure =>
      if l.isClosed then
        some { l with stage := .over (failure.elim (.ok l.report) Except.error) }
      else none
    | _ => none

/-- What steps, one after the other, make of a launch. -/
def run (l : Launch) (steps : List Step) : Option Launch :=
  steps.foldlM step l

end Launch

end LaunchPlan
