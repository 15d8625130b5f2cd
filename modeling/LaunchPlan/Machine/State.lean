import LaunchPlan.ExitStatus
import LaunchPlan.Files
import LaunchPlan.Machine.Signal
import LaunchPlan.Shell.State

/-!
# A machine

A machine has files, a clock and running programs. Programs are connected by
pipes and stopped by signals. Time is counted in nanoseconds.
-/

namespace LaunchPlan.Machine

/-- What a program is doing. -/
inductive Activity
  /-- It is being loaded until `ready`. -/
  | loading (ready : Nat) (program : String) (arguments : List Octets)
      (environment : List (Octets × Octets))
  | shell (s : Shell.State)
  | sleeping (wake : Nat)
  /-- It copies one input after the other to its output. -/
  | copying (name : Octets) (handle : Option Handle) (paths : List Octets) (code : Nat)
  | ended (status : ExitStatus)

/-- A running program. -/
structure Job where
  pid : Nat
  parent : Nat
  /-- Signals can be sent to all programs of a group. -/
  group : Nat
  handles : Handles := []
  /-- Handles that no descriptor stands for while it stands for another. -/
  kept : List Handle := []
  /-- Where relative paths start. -/
  directory : Location
  ignored : List Nat := []
  /-- Signals that have arrived and are to be acted on. -/
  arrived : List Nat := []
  activity : Activity

namespace Job

def status? (j : Job) : Option ExitStatus :=
  match j.activity with
  | .ended status => some status
  | _ => none

def isRunning (j : Job) : Bool :=
  j.status?.isNone

end Job

structure Pipe where
  content : Octets := []
  /-- Whether it is read from outside the machine. -/
  watched : Bool := false

structure OpenFile where
  location : Location
  offset : Nat := 0
  append : Bool := false

end Machine

/-- A machine. -/
structure Machine where
  tree : Tree
  now : Nat := 0
  nextPid : Nat := 100
  jobs : List Machine.Job := []
  pipes : Array Machine.Pipe := #[]
  openFiles : Array Machine.OpenFile := #[]

namespace Machine

/-- The time from which the times of files are counted. -/
def epoch : Nat := 1700000000000000000

/-- How long one step of a program takes. -/
def quantum : Nat := 1000

/-- How long it takes to load a program. -/
def loadingTime : Nat := 1000000

def job? (m : Machine) (pid : Nat) : Option Job :=
  m.jobs.find? fun j => j.pid = pid

def putJob (m : Machine) (j : Job) : Machine :=
  { m with jobs := m.jobs.map fun i => if i.pid = j.pid then j else i }

def changeJob (m : Machine) (pid : Nat) (change : Job → Job) : Machine :=
  { m with jobs := m.jobs.map fun j => if j.pid = pid then change j else j }

/-- The files as a program sees them. -/
def view (m : Machine) (pid : Nat) : Tree :=
  match m.job? pid with
  | some j => { m.tree with current := j.directory }
  | none => m.tree

def handle? (m : Machine) (pid descriptor : Nat) : Option Handle :=
  (m.job? pid).bind fun j => j.handles.lookup descriptor

def holds (m : Machine) (handle : Handle) : Bool :=
  m.jobs.any fun j => j.isRunning && (j.handles.any (fun (_, h) => h = handle) || handle ∈ j.kept)

/-- Whether someone may still read from a pipe. -/
def isRead (m : Machine) (pipe : Nat) : Bool :=
  (m.pipes[pipe]?).any Pipe.watched || m.holds (.reader pipe)

/-- Whether someone may still write to a pipe. -/
def isWritten (m : Machine) (pipe : Nat) : Bool :=
  m.holds (.writer pipe)

def newPipe (m : Machine) (watched : Bool) : Nat × Machine :=
  (m.pipes.size, { m with pipes := m.pipes.push { watched } })

def changePipe (m : Machine) (pipe : Nat) (change : Pipe → Pipe) : Machine :=
  { m with pipes := m.pipes.modify pipe change }

/-- Takes everything out of a pipe. -/
def drain (m : Machine) (pipe : Nat) : Octets × Machine :=
  match m.pipes[pipe]? with
  | some p => (p.content, m.changePipe pipe fun p => { p with content := [] })
  | none => ([], m)

def stamp (m : Machine) : Nat :=
  epoch + m.now

/-- The failure of writing to a pipe that no one reads. -/
def brokenPipe : IoError := .os 32

/-- The failure of using a descriptor that is not open. -/
def badDescriptor : IoError := .os 9

/-- The content of the file at a location. -/
def content (m : Machine) (location : Location) : Octets :=
  match m.tree.node? location with
  | some (.file content _) => Octets.ofBytes content
  | _ => []

def writeFile (m : Machine) (number : Nat) (f : OpenFile) (octets : Octets) : Machine :=
  let old := m.content f.location
  let offset := if f.append then old.length else f.offset
  let padded := old.take offset ++ List.replicate (offset - old.length) '\x00'
  let new := padded ++ octets ++ old.drop (offset + octets.length)
  match m.tree.node? f.location with
  | some (.file ..) =>
    { m with
      tree := m.tree.put f.location (.file (Octets.toByteArray new) m.stamp)
      openFiles := m.openFiles.modify number fun f => { f with offset := offset + octets.length } }
  | _ => m

/-- Writes to what a descriptor of a program stands for. -/
def write (m : Machine) (pid descriptor : Nat) (octets : Octets) : Except IoError Machine :=
  if octets.isEmpty then .ok m
  else
    match m.handle? pid descriptor with
    | none => .error badDescriptor
    | some .nothing => .ok m
    | some (.reader _) => .error badDescriptor
    | some (.writer pipe) =>
      if m.isRead pipe then
        .ok (m.changePipe pipe fun p => { p with content := p.content ++ octets })
      else .error brokenPipe
    | some (.file number) =>
      match m.openFiles[number]? with
      | some f => .ok (m.writeFile number f octets)
      | none => .error badDescriptor

inductive Input
  | data (octets : Octets)
  | atEnd
  /-- Nothing is there yet. -/
  | wait

/-- Reads at most `limit` octets. -/
def read (m : Machine) (handle : Handle) (limit : Nat) : Except IoError (Input × Machine) :=
  match handle with
  | .nothing => .ok (.atEnd, m)
  | .writer _ => .error badDescriptor
  | .reader pipe =>
    match m.pipes[pipe]? with
    | none => .ok (.atEnd, m)
    | some p =>
      if p.content.isEmpty then .ok (if m.isWritten pipe then .wait else .atEnd, m)
      else
        .ok (.data (p.content.take limit),
          m.changePipe pipe fun p => { p with content := p.content.drop limit })
  | .file number =>
    match m.openFiles[number]? with
    | none => .error badDescriptor
    | some f =>
      if (m.tree.node? f.location).any Node.isDirectory then .error .isADirectory
      else
        let octets := ((m.content f.location).drop f.offset).take limit
        if octets.isEmpty then .ok (.atEnd, m)
        else
          .ok (.data octets, { m with
            openFiles := m.openFiles.modify number fun f =>
              { f with offset := f.offset + octets.length } })

/-- Opens the file at a location. -/
def addOpenFile (m : Machine) (f : OpenFile) : Handle × Machine :=
  (.file m.openFiles.size, { m with openFiles := m.openFiles.push f })

/-- The handle that a descriptor of a program stands for. -/
def opened (m : Machine) (pid number : Nat) : Except IoError Handle :=
  match m.handle? pid number with
  | some handle => .ok handle
  | none => .error .notFound

/-- Opens a file for reading, as a program sees it. -/
def openToRead (m : Machine) (pid : Nat) (path : String) : Except IoError (Handle × Machine) := do
  let location ← (m.view pid).locate path
  match m.tree.node? location with
  | some .nullDevice => return (.nothing, m)
  | some (.descriptor number) => return (← m.opened pid number, m)
  | _ => return m.addOpenFile { location }

/-- Opens a file for writing; it is made where it does not exist, and emptied if `truncate`. -/
def openToWrite (m : Machine) (pid : Nat) (path : String) (truncate append : Bool) :
    Except IoError (Handle × Machine) := do
  let location ← (m.view pid).target path
  match m.tree.node? location with
  | some .nullDevice => return (.nothing, m)
  | some (.descriptor number) => return (← m.opened pid number, m)
  | some (.file ..) =>
    if truncate then
      let m := { m with tree := m.tree.put location (.file .empty m.stamp) }
      return m.addOpenFile { location, append }
    else return m.addOpenFile { location, append }
  | some .directory => .error .isADirectory
  | some (.program _) => .error (.os 26)
  | none =>
    let m := { m with tree := m.tree.put location (.file .empty m.stamp) }
    return m.addOpenFile { location, append }

/-- Starts a program as a child of another. -/
def start (m : Machine) (j : Job) : Nat × Machine :=
  (m.nextPid, { m with nextPid := m.nextPid + 1, jobs := m.jobs ++ [{ j with pid := m.nextPid }] })

/-- A program ends: it lets go of its handles, and its children that have ended are forgotten. -/
def finish (m : Machine) (pid : Nat) (status : ExitStatus) : Machine :=
  let orphaned (j : Job) : Bool := j.parent = pid && !j.isRunning
  let m := { m with jobs := m.jobs.filter fun j => !orphaned j }
  let adopted (j : Job) : Job := if j.parent = pid then { j with parent := 1 } else j
  let m := { m with jobs := m.jobs.map adopted }
  match m.job? pid with
  | none => m
  | some j =>
    if j.parent = 1 then { m with jobs := m.jobs.filter fun i => i.pid ≠ pid }
    else m.putJob { j with activity := .ended status, handles := [], kept := [], arrived := [] }

/-- Forgets a program that has ended. -/
def reap (m : Machine) (pid : Nat) : Machine :=
  { m with jobs := m.jobs.filter fun j => j.pid ≠ pid }

/-- A signal arrives at a program. -/
def send (m : Machine) (signal pid : Nat) : Machine :=
  match m.job? pid with
  | none => m
  | some j =>
    if !j.isRunning || signal = 0 then m
    else if signal = Signal.kill then m.finish pid (.signaled signal)
    else if signal ∈ j.ignored then m
    else
      match j.activity with
      | .shell _ => m.putJob { j with arrived := j.arrived ++ [signal] }
      | _ => if Signal.isHarmless signal then m else m.finish pid (.signaled signal)

/-- A signal arrives at every program of a group. -/
def sendGroup (m : Machine) (signal group : Nat) : Machine :=
  (m.jobs.filter fun j => j.group = group && j.isRunning).foldl (fun m j => m.send signal j.pid) m

/-! ## Finding programs -/

/-- What may be started behind a path. -/
def programAt (tree : Tree) (path : String) : Except IoError String := do
  match tree.node? (← tree.locate path) with
  | some (.program name) => return name
  | some _ => .error .permissionDenied
  | none => .error .notFound

/-- Where programs are looked for if nothing else is said. -/
def defaultPath : String := "/bin:/usr/bin"

/-- The program of a name in a list of directories. A program that may not be started is the
failure only if there is no other. -/
def searchProgram (tree : Tree) (name : String) : List String → Option IoError → Except IoError String
  | [], failure => .error (failure.getD .notFound)
  | directory :: rest, failure =>
    match programAt tree (if directory.isEmpty then name else directory ++ "/" ++ name) with
    | .ok program => .ok program
    | .error e =>
      let failure := if failure = some .permissionDenied then failure else some e
      searchProgram tree name rest failure

/-- The program that a name stands for, with the search path `path`. -/
def findProgram (tree : Tree) (path : Option String) (name : String) : Except IoError String :=
  if name.isEmpty then .error .notFound
  else if '/' ∈ name.toList then programAt tree name
  else if 255 < name.utf8ByteSize then .error (.os 36)
  else searchProgram tree name (((path.getD defaultPath).toList.splitOn ':').map String.ofList) none

end Machine

end LaunchPlan
