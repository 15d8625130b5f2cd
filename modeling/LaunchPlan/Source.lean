import LaunchPlan.Description.Elements
import LaunchPlan.Files

/-!
# Where descriptions come from

A source gives the description that a locator names, with a key that is the same
for every way to name that description. `nesting` bounds how many descriptions,
no two with the same key, can be included one in another.
-/

namespace LaunchPlan

structure Loaded where
  key : String
  description : Description

structure Source where
  /-- Loads a locator, seen from the description with the key `including`. -/
  load : (tree : Tree) → (locator : String) → (including : Option String) →
    Except LaunchError Loaded
  nesting : Tree → Nat

namespace Source

/-- The description registered under a locator. -/
def lookup? (locator : String) : List (String × Description) → Option Description
  | [] => none
  | (name, description) :: rest => if name = locator then some description else lookup? locator rest

/-- Descriptions held in memory. The locator is the key. -/
def memory (descriptions : List (String × Description)) : Source where
  load _ locator _ :=
    match lookup? locator descriptions with
    | some description => .ok { key := locator, description }
    | none => .error (.bare (.includeNotFound locator "no description registered under this name"))
  nesting _ := descriptions.length

/-- The path that a locator names: a relative one is seen from the directory of the file that
includes it. -/
def filePath (locator : String) (including : Option String) : String :=
  if Path.isAbsolute locator then locator
  else
    match including.bind Path.parent with
    | some directory => Path.join directory locator
    | none => locator

/-- The one path of the file that a locator names. -/
def fileKey (tree : Tree) (locator : String) (including : Option String) :
    Except LaunchError String :=
  let path := filePath locator including
  (tree.canonical path).mapError fun e => .bare (.includeNotFound path e.message)

/-- The description in a file, given what reading it gave. -/
def ofFile (key : String) : Except IoError String → Except LaunchError Loaded
  | .error e => .error (.bare (.includeNotFound key e.message))
  | .ok text =>
    match Description.read text with
    | .ok description => .ok { key, description }
    | .error e => .error (.bare (.parse key e))

/-- How many files may be included one in another beyond those that are there: commands may make
files while a launch is composed. -/
def spareFiles : Nat := 10000

/-- Launch files. The path without detours is the key. -/
def files : Source where
  load tree locator including := do
    let key ← fileKey tree locator including
    ofFile key (tree.readText key)
  nesting tree := tree.ways.length + spareFiles

end Source

end LaunchPlan
