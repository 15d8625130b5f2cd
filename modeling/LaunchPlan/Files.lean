import LaunchPlan.IoError
import LaunchPlan.Path

/-!
# Trees of files

A tree maps locations, given by the names on the way from the root, to files
and directories. Paths are looked up from a current directory; every failure is
the one a POSIX system reports.
-/

namespace LaunchPlan

/-- The names on the way from the root. -/
abbrev Location := List String

inductive Node
  | directory
  /-- A regular file, with the time of its last change in nanoseconds. -/
  | file (content : ByteArray) (modified : Nat)
  /-- A program that the machine provides. -/
  | program (name : String)
  /-- The device that is always empty and takes everything. -/
  | nullDevice
  /-- What a descriptor of the program that looks here stands for. -/
  | descriptor (number : Nat)

namespace Node

def isDirectory : Node → Bool
  | directory => true
  | _ => false

def isRegular : Node → Bool
  | file .. | program _ => true
  | _ => false

/-- Whether it may be started, or entered. Files are not executable. -/
def isExecutable : Node → Bool
  | directory | program _ => true
  | _ => false

end Node

structure Tree where
  nodes : List (Location × Node) := []
  /-- Where relative paths start. -/
  current : Location := []

namespace Tree

def node? (tree : Tree) (location : Location) : Option Node :=
  if location.isEmpty then some .directory
  else (tree.nodes.find? fun (l, _) => l = location).map Prod.snd

def isDirectoryAt (tree : Tree) (location : Location) : Bool :=
  (tree.node? location).any Node.isDirectory

def put (tree : Tree) (location : Location) (node : Node) : Tree :=
  if tree.nodes.any fun (l, _) => l = location then
    { tree with nodes := tree.nodes.map fun (l, n) => if l = location then (l, node) else (l, n) }
  else { tree with nodes := tree.nodes ++ [(location, node)] }

theorem find?_map_replace (nodes : List (Location × Node)) (location : Location) (node : Node)
    (h : nodes.any fun (l, _) => l = location) :
    ((nodes.map fun (l, n) => if l = location then (l, node) else (l, n)).find?
      fun (l, _) => l = location) = some (location, node) := by
  induction nodes with
  | nil => simp at h
  | cons p rest ih =>
    by_cases hp : p.1 = location
    · simp [hp]
    · have hr : (rest.any fun (l, _) => l = location) = true := by simpa [hp] using h
      simpa [hp] using ih hr

theorem node?_put_self (tree : Tree) {location : Location} (node : Node) (h : location ≠ []) :
    (tree.put location node).node? location = some node := by
  have he : location.isEmpty = false := by simpa using h
  unfold put
  split
  · next hl => simp [node?, he, find?_map_replace tree.nodes location node hl]
  · next hl =>
    have hn : (tree.nodes.find? fun (l, _) => l = location) = none := by
      simpa [List.find?_eq_none] using fun l n hm he =>
        hl (List.any_eq_true.2 ⟨(l, n), hm, by simpa using he⟩)
    simp [node?, he, hn]

def remove (tree : Tree) (location : Location) : Tree :=
  { tree with nodes := tree.nodes.filter fun (l, _) => l ≠ location }

/-- Makes every directory on the way to `location`. -/
def makeDirectories (tree : Tree) (location : Location) : Tree :=
  (List.range location.length).foldl (fun t n =>
    let here := location.take (n + 1)
    if (t.node? here).isSome then t else t.put here .directory) tree

/-- The locations on the way to what is there, and to the current directory. -/
def ways (tree : Tree) : List Location :=
  (tree.current :: tree.nodes.map Prod.fst).flatMap fun location =>
    (List.range (location.length + 1)).map fun n => location.take n

/-- The location reached from `location` by following the pieces of a path. -/
def follow (tree : Tree) : Location → List String → Except IoError Location
  | location, [] => .ok location
  | location, piece :: rest =>
    match tree.node? location with
    | some .directory =>
      if piece = "" || piece = "." then follow tree location rest
      else if piece = ".." then follow tree location.dropLast rest
      else if 255 < piece.utf8ByteSize then .error (.os 36)
      else if (tree.node? (location ++ [piece])).isSome then
        follow tree (location ++ [piece]) rest
      else .error .notFound
    | some _ => .error .notADirectory
    | none => .error .notFound

def start (tree : Tree) (path : String) : Location :=
  if Path.isAbsolute path then [] else tree.current

/-- The location that a path names. -/
def locate (tree : Tree) (path : String) : Except IoError Location :=
  if path.isEmpty then .error .notFound
  else if path.toList.contains '\x00' then .error .nulInPath
  else tree.follow (tree.start path) (Path.pieces path)

/-- What a path names. -/
def find? (tree : Tree) (path : String) : Option Node :=
  (tree.locate path).toOption.bind tree.node?

def exists? (tree : Tree) (path : String) : Bool :=
  (tree.locate path).isOk

def isFile (tree : Tree) (path : String) : Bool :=
  (tree.find? path).any Node.isRegular

/-- The bytes behind a path. -/
def readBytes (tree : Tree) (path : String) : Except IoError ByteArray := do
  match tree.node? (← tree.locate path) with
  | some (.file content _) => .ok content
  | some (.program _) | some .nullDevice | some (.descriptor _) => .ok .empty
  | some .directory => .error .isADirectory
  | none => .error .notFound

/-- The text behind a path. -/
def readText (tree : Tree) (path : String) : Except IoError String := do
  match String.fromUTF8? (← tree.readBytes path) with
  | some text => .ok text
  | none => .error .invalidUtf8

/-- The one absolute path of what a path names, without `.`, `..` and doubled separators. -/
def canonical (tree : Tree) (path : String) : Except IoError String :=
  Path.ofSteps <$> tree.locate path

/-- The time of the last change of what a path names. -/
def modified (tree : Tree) (path : String) : Except IoError Nat := do
  match tree.node? (← tree.locate path) with
  | some (.file _ time) => .ok time
  | some _ => .ok 0
  | none => .error .notFound

/-- Where a file of this path is, or is to be made. -/
def target (tree : Tree) (path : String) : Except IoError Location :=
  if path.isEmpty then .error .notFound
  else if path.toList.contains '\x00' then .error .nulInPath
  else do
    let steps := Path.pieces path
    let name := steps.getLast?.getD ""
    let directory ← tree.follow (tree.start path) steps.dropLast
    if !tree.isDirectoryAt directory then .error .notADirectory
    else if name = "" || name = "." || name = ".." then .error .isADirectory
    else if 255 < name.utf8ByteSize then .error (.os 36)
    else .ok (directory ++ [name])

/-- Changes the content of a file, which is made where it does not exist. -/
def update (tree : Tree) (path : String) (time : Nat) (change : ByteArray → ByteArray) :
    Except IoError Tree := do
  let location ← tree.target path
  match tree.node? location with
  | some .directory => .error .isADirectory
  | some (.program _) => .error (.os 26)
  | some .nullDevice | some (.descriptor _) => .ok tree
  | some (.file content _) => .ok (tree.put location (.file (change content) time))
  | none => .ok (tree.put location (.file (change .empty) time))

/-- Replaces the content of a file. -/
def write (tree : Tree) (path : String) (time : Nat) (content : ByteArray) :
    Except IoError Tree :=
  tree.update path time fun _ => content

end Tree

end LaunchPlan
