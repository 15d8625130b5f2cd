import LaunchPlan.Source

/-!
# Texts of launch files kept in memory

A text that has been read is used again as long as the time of the last change of
its file is the same. Texts that are not UTF-8 are not kept.
-/

namespace LaunchPlan

structure KeptFile where
  key : String
  text : String
  modified : Nat
  deriving DecidableEq, Repr

abbrev LaunchFiles := List KeptFile

namespace LaunchFiles

def find? (files : LaunchFiles) (key : String) : Option KeptFile :=
  List.find? (fun f : KeptFile => f.key = key) files

/-- The text kept of a file, if it was read when the file had this time. -/
def text? (files : LaunchFiles) (key : String) (modified : Nat) : Option String :=
  (files.find? key).bind fun f => if f.modified = modified then some f.text else none

def keep (files : LaunchFiles) (file : KeptFile) : LaunchFiles :=
  file :: List.filter (fun f : KeptFile => f.key ≠ file.key) files

/-- The text of a file, and what is kept afterwards. -/
def read (files : LaunchFiles) (tree : Tree) (key : String) :
    Except IoError String × LaunchFiles :=
  match tree.modified key with
  | .error e => (.error e, files)
  | .ok modified =>
    match files.text? key modified with
    | some text => (.ok text, files)
    | none =>
      match tree.readText key with
      | .error e => (.error e, files)
      | .ok text => (.ok text, files.keep { key, text, modified })

/-- Loads a launch file. -/
def load (files : LaunchFiles) (tree : Tree) (locator : String) (including : Option String) :
    Except LaunchError Loaded × LaunchFiles :=
  match Source.fileKey tree locator including with
  | .error e => (.error e, files)
  | .ok key =>
    let (text, files) := files.read tree key
    (Source.ofFile key text, files)

end LaunchFiles

end LaunchPlan
