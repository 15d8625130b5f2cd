import LaunchPlan.LaunchFiles

/-!
# Launch files that change while they are loaded

Files are written and removed by others while launch files are loaded. In a
session, changes and loads come one after the other. Readings of launch files may
also go on at the same time: each looks at the time of the file, then at what is
kept, and if that is of no use it reads the file and keeps the text. Between two
steps of a reading, other readings may go on and files may change.
-/

namespace LaunchPlan

/-- A change of a file. -/
inductive FileChange
  /-- A file has this content from now on, and this is the time of its change. -/
  | write (location : Location) (content : ByteArray) (time : Nat)
  | remove (location : Location)

/-- The tree after a change: what is changed is a file, or nothing where one is made. -/
def FileChange.apply (tree : Tree) : FileChange → Option Tree
  | write location content time =>
    match tree.node? location with
    | none | some (.file ..) => some (tree.put location (.file content time))
    | _ => none
  | remove location =>
    match tree.node? location with
    | some (.file ..) => some (tree.remove location)
    | _ => none

/-! ## One after the other -/

/-- What happens in a session. -/
inductive Visit
  | change (c : FileChange)
  | load (locator : String) (including : Option String)

structure FileSession where
  tree : Tree
  kept : LaunchFiles := []

namespace FileSession

def step (s : FileSession) : Visit → Option FileSession
  | .change c => (c.apply s.tree).map fun tree => { s with tree }
  | .load locator including => some { s with kept := (s.kept.load s.tree locator including).2 }

def run (s : FileSession) (visits : List Visit) : Option FileSession :=
  visits.foldlM step s

end FileSession

/-! ## At the same time -/

/-- A reading of a launch file, and how far it has come. -/
inductive ReadingStage
  | begun
  /-- The file has this time. -/
  | dated (modified : Nat)
  /-- No text is kept for this time: the file is to be read. -/
  | missed (modified : Nat)
  /-- The file was read, and the text is to be kept for this time. -/
  | fetched (modified : Nat) (text : String)
  | ended (result : Except IoError String)

structure Reading where
  key : String
  stage : ReadingStage := .begun

namespace Reading

def hasEnded (r : Reading) : Bool :=
  match r.stage with
  | .ended _ => true
  | _ => false

/-- The next step of a reading: where it comes to, and what is kept afterwards. -/
def next? (r : Reading) (tree : Tree) (kept : LaunchFiles) : Option (ReadingStage × LaunchFiles) :=
  match r.stage with
  | .begun =>
    match tree.modified r.key with
    | .ok modified => some (.dated modified, kept)
    | .error e => some (.ended (.error e), kept)
  | .dated modified =>
    match kept.text? r.key modified with
    | some text => some (.ended (.ok text), kept)
    | none => some (.missed modified, kept)
  | .missed modified =>
    match tree.readText r.key with
    | .ok text => some (.fetched modified text, kept)
    | .error e => some (.ended (.error e), kept)
  | .fetched modified text => some (.ended (.ok text), kept.keep { key := r.key, text, modified })
  | .ended _ => none

end Reading

structure Readings where
  tree : Tree
  kept : LaunchFiles := []
  readings : List Reading := []

namespace Readings

inductive Step
  | change (c : FileChange)
  /-- A reading begins. -/
  | begin (key : String)
  /-- A reading, named by its place in the order of beginning, takes its next step. -/
  | go (reading : Nat)

def step (s : Readings) : Step → Option Readings
  | .change c => (c.apply s.tree).map fun tree => { s with tree }
  | .begin key => some { s with readings := s.readings ++ [{ key }] }
  | .go reading => do
    let r ← s.readings[reading]?
    let (stage, kept) ← r.next? s.tree s.kept
    return { s with kept, readings := s.readings.set reading { r with stage } }

def run (s : Readings) (steps : List Step) : Option Readings :=
  steps.foldlM step s

end Readings

end LaunchPlan
