import LaunchPlan.Json.Reader
import LaunchPlan.PlannedProcess

/-!
# Manifests as JSON

A manifest is written as an object, its fields in a fixed order. In reading,
fields may come in any order and others between them, but none twice; a field
that may be null may be left out; and an object may also be given as the array of
all its fields in order.
-/

namespace LaunchPlan

open Json (Value)

def PlannedProcess.toJson (p : PlannedProcess) : Value :=
  .object [
    ("package", .ofOption p.package),
    ("executable", .string p.executable),
    ("name", .ofOption p.name),
    ("namespace", .ofOption p.space),
    ("arguments", .ofTexts p.arguments),
    ("parameters", .ofPairs p.parameters),
    ("param_files", .ofTexts p.paramFiles),
    ("env", .ofPairs p.environment),
    ("output", .string p.output.text),
    ("critical", .bool p.critical)]

def Manifest.toJson (m : Manifest) : Value :=
  .object [("processes", .array (m.processes.map PlannedProcess.toJson))]

/-- The text of a manifest, over several lines. -/
def Manifest.text (m : Manifest) : String :=
  m.toJson.text

namespace Json.Value

def asText? : Value → Option String
  | string text => some text
  | _ => none

def asOption? : Value → Option (Option String)
  | null => some none
  | string text => some (some text)
  | _ => none

def asBool? : Value → Option Bool
  | bool b => some b
  | _ => none

def asItems? {α : Type} (item? : Value → Option α) : Value → Option (List α)
  | array items => items.mapM item?
  | _ => none

def asPair? : Value → Option (String × String)
  | array [string a, string b] => some (a, b)
  | _ => none

def outputMode? (name : String) : Option OutputMode :=
  if name = "screen" then some .screen else if name = "log" then some .log else none

/-- A mode is its name, or an object with its name as the only key and null as its value. -/
def asOutputMode? : Value → Option OutputMode
  | string name => outputMode? name
  | object [(name, null)] => outputMode? name
  | _ => none

/-- The value of a field: none when it comes twice, null when it may be left out and is. -/
def member? (members : List (String × Value)) (name : String) (optional : Bool) : Option Value :=
  match members.filter fun (key, _) => key = name with
  | [] => if optional then some null else none
  | [(_, value)] => some value
  | _ => none

/-- The values of the named fields, from an object or from the array of all of them. -/
def fields? (names : List (String × Bool)) : Value → Option (List Value)
  | object members => names.mapM fun (name, optional) => member? members name optional
  | array items => if items.length = names.length then some items else none
  | _ => none

end Json.Value

/-- The fields of a process, and whether they may be left out. -/
def PlannedProcess.fields : List (String × Bool) :=
  [("package", true), ("executable", false), ("name", true), ("namespace", true),
    ("arguments", false), ("parameters", false), ("param_files", false), ("env", false),
    ("output", false), ("critical", false)]

def PlannedProcess.ofFields? : List Value → Option PlannedProcess
  | [package, executable, name, space, arguments, parameters, paramFiles, environment, output,
      critical] => do
    return {
      package := ← package.asOption?
      executable := ← executable.asText?
      name := ← name.asOption?
      space := ← space.asOption?
      arguments := ← arguments.asItems? Value.asText?
      parameters := ← parameters.asItems? Value.asPair?
      paramFiles := ← paramFiles.asItems? Value.asText?
      environment := ← environment.asItems? Value.asPair?
      output := ← output.asOutputMode?
      critical := ← critical.asBool? }
  | _ => none

def PlannedProcess.ofJson? (value : Value) : Option PlannedProcess := do
  PlannedProcess.ofFields? (← value.fields? PlannedProcess.fields)

def Manifest.ofJson? (value : Value) : Option Manifest := do
  match ← value.fields? [("processes", false)] with
  | [processes] => return ⟨← processes.asItems? PlannedProcess.ofJson?⟩
  | _ => none

/-- The manifest that a text writes. -/
def Manifest.read? (text : String) : Option Manifest := do
  Manifest.ofJson? (← Json.read? text)

end LaunchPlan
