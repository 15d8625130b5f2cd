import LaunchPlan.CommandLine.Program
import LaunchPlan.Machine.Programs

/-!
# The entry point

The program sees the files below the current directory. What it writes is
written back to them.
-/

namespace LaunchPlan

/-- The names on the way to an absolute path. -/
def locationOf (path : String) : Location :=
  (Path.pieces path).filter fun piece => piece ≠ ""

/-- The files below the current directory. -/
def readTree : IO Tree := do
  let here ← IO.currentDir
  let mut tree := Machine.initialTree (locationOf here.toString)
  for path in ← here.walkDir do
    let location := locationOf path.toString
    if ← path.isDir then tree := tree.makeDirectories location
    else tree := tree.put location (.file (← IO.FS.readBinFile path) 0)
  return tree

/-- Writes the files that are not as they were. -/
def writeChanges (old new : Tree) : IO Unit := do
  for (location, node) in new.nodes do
    match node, old.node? location with
    | .file content _, some (.file before _) =>
      if content != before then IO.FS.writeBinFile (Path.ofSteps location) content
    | .file content _, none => IO.FS.writeBinFile (Path.ofSteps location) content
    | _, _ => pure ()

/-- The variables in the environment of the program. -/
def readVariables : IO Bindings := do
  let bytes ← IO.FS.readBinFile "/proc/self/environ"
  let entries := (Octets.ofBytes bytes).splitOn '\x00'
  return Bindings.ofPairs (entries.filterMap fun entry =>
    let name := entry.takeWhile (· ≠ '=')
    if name.isEmpty then none
    else some (Octets.toText name, Octets.toText (entry.drop (name.length + 1))))

def printLine (line : ForwardedLine) : IO Unit :=
  match line.destination with
  | .output => IO.println line.text
  | .errors => IO.eprintln line.text
  | .debug => pure ()

end LaunchPlan

open LaunchPlan in
/-- Runs the program. -/
def main (words : List String) : IO UInt32 := do
  let tree ← readTree
  let outcome := CommandLine.call { tree } (← readVariables) words
  writeChanges tree outcome.machine.tree
  outcome.forwarded.forM printLine
  IO.print outcome.output
  if let some text := outcome.errorText then IO.eprint text
  return UInt32.ofNat outcome.exitCode
