import LaunchPlan.Bindings
import LaunchPlan.Error
import LaunchPlan.Files
import LaunchPlan.Yaml.Value

/-!
# Parameter files

A parameter file is a YAML mapping of sections, one for each node. A section
holds its parameters below `ros__parameters`. Nested mappings are flattened, the
names joined with dots; a later value of a name replaces the earlier one.
-/

namespace LaunchPlan.Parameters

open Yaml (Value)

/-- The entry of a section that holds its parameters. -/
def sectionKey : String := "ros__parameters"

def dropFinalSlashes (cs : List Char) : List Char :=
  (cs.reverse.dropWhile (· = '/')).reverse

/-- What follows the last slash; none where there is no slash. -/
def lastStep? (cs : List Char) : Option (List Char) :=
  if '/' ∈ cs then some (cs.reverse.takeWhile (· ≠ '/')).reverse else none

/-- Whether a section is meant for a node: its name is a wildcard, that of the node, or has it as
its last step. Without a node every section is. -/
def applies (name : String) : Option String → Bool
  | none => true
  | some node =>
    let key := dropFinalSlashes name.toList
    key = ['*', '*'] || key = ['/', '*', '*'] || key = node.toList || lastStep? key = some node.toList

/-- The text of a key; other kinds of keys have none. -/
def keyText? : Value → Option String
  | .string text => some text
  | .int i => some (toString i)
  | .float f => some (Yaml.floatText f)
  | .bool b => some (toString b)
  | _ => none

/-- The text of a value that is not a mapping. Lists are written as JSON where that is possible. -/
def valueText : Value → String
  | .string text => text
  | .int i => toString i
  | .float f => Yaml.floatText f
  | .bool b => toString b
  | .null => "null"
  | .sequence items =>
    match Yaml.jsonItems? items with
    | some texts => "[" ++ ",".intercalate texts ++ "]"
    | none => "[" ++ ", ".intercalate (Yaml.describeAll items) ++ "]"
  | .tagged _ value => Yaml.describe value
  | .mapping entries => Yaml.describe (.mapping entries)

/-- The name of an entry below `scope`. -/
def nameBelow (scope key : String) : String :=
  if scope.isEmpty then key else scope ++ "." ++ key

mutual

/-- Adds the parameters in the entries of a mapping. -/
def addEntries (scope : String) : List (Value × Value) → Bindings → Bindings
  | [], done => done
  | (key, value) :: rest, done =>
    match keyText? key with
    | none => addEntries scope rest done
    | some text => addEntries scope rest (addValue (nameBelow scope text) value done)

/-- Adds the parameters that a value of this name holds. -/
def addValue (name : String) : Value → Bindings → Bindings
  | .mapping entries, done => addEntries name entries done
  | value, done => done.set name (valueText value)

end

/-- A value without its tags. -/
def untagged : Value → Value
  | .tagged _ value => untagged value
  | value => value

/-- The entry of a mapping with a text as its key. -/
def entry? (key : String) : List (Value × Value) → Option Value
  | [] => none
  | (.string text, value) :: rest => if text = key then some value else entry? key rest
  | _ :: rest => entry? key rest

/-- What a section keeps below its parameter key. -/
def sectionBody? (body : Value) : Option Value :=
  match untagged body with
  | .mapping entries => entry? sectionKey entries
  | _ => none

/-- Adds the parameters of a section. -/
def addSection (name : String) (body : Value) (done : Bindings) : Except ParamFileFault Bindings :=
  match sectionBody? body with
  | none => .ok done
  | some (.mapping entries) => .ok (addEntries "" entries done)
  | some _ => .error (.notAMapping name)

/-- Adds the parameters of the sections meant for a node. -/
def addSections (node : Option String) :
    List (Value × Value) → Bindings → Except ParamFileFault Bindings
  | [], done => .ok done
  | (.string name, body) :: rest, done =>
    if applies name node then do addSections node rest (← addSection name body done)
    else addSections node rest done
  | _ :: rest, done => addSections node rest done

/-- The parameters of a document for a node. -/
def ofValue (node : Option String) : Value → Except ParamFileFault Bindings
  | .mapping sections => addSections node sections []
  | .null => .ok []
  | _ => .error .noSections

/-- The parameters that a text holds for a node. -/
def ofText (node : Option String) (text : String) : Except ParamFileFault Bindings := do
  ofValue node (← (Yaml.read text).mapError .notYaml)

/-- The parameters that a file holds for a node. -/
def load (tree : Tree) (path : String) (node : Option String) : Except ParseError Bindings := do
  let text ← (tree.readText path).mapError .io
  (ofText node text).mapError (.invalidParamFile path)

end LaunchPlan.Parameters
