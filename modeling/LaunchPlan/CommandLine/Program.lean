import LaunchPlan.CommandLine.Options
import LaunchPlan.Compose
import LaunchPlan.Machine.Command
import LaunchPlan.Manifest.Json
import LaunchPlan.Supervision.Run

/-!
# The program

The two commands: `compose` prints the manifest of a launch file or its arguments,
and `run` starts what it describes and waits for the end.
-/

namespace LaunchPlan.CommandLine

/-- What a call of the program comes to. -/
structure Outcome where
  exitCode : Nat := 0
  output : String := ""
  /-- The failure that is printed. -/
  error : Option LaunchError := none
  /-- The lines of started processes. -/
  forwarded : List ForwardedLine := []
  machine : Machine

namespace Outcome

def failed (machine : Machine) (e : LaunchError) : Outcome :=
  { exitCode := e.exitCode, error := some e, machine }

/-- What is printed of a failure. -/
def errorText (o : Outcome) : Option String :=
  o.error.map fun e => "Error: " ++ e.message ++ "\n"

end Outcome

def versionText : String := "scene_launch 0.1.0\n"

/-- How an argument is shown with its value. -/
def describeArgument (declaration : Declaration) (value : Option String) : String :=
  declaration.name ++ ":\n" ++
    (if declaration.description.isEmpty then "" else "    " ++ declaration.description ++ "\n") ++
    "    value: " ++ value.getD "<unset>" ++ "\n" ++
    match declaration.choices with
    | some choices => "    choices: " ++ ", ".intercalate choices ++ "\n"
    | none => ""

def millisecond : Nat := 1000000

/-- Composes the launch file of a call. -/
def composeFile (m : Machine) (bindings : Bindings) (o : Options) :
    Except LaunchError Composition × Machine :=
  let env : Environment := { bindings, commandTimeout := o.commandTimeout * millisecond }
  let (result, session) := Composition.ofLocator Machine.host env .files (o.file.getD "") o.bindings
    { machine := m, outputs := some [] }
  (result, session.machine)

def compose (m : Machine) (bindings : Bindings) (o : Options) : Outcome :=
  match composeFile m bindings o with
  | (.error e, m) => .failed m e
  | (.ok composition, m) =>
    if o.showsArguments then
      { machine := m
        output := String.join (composition.arguments.map fun (d, v) => describeArgument d v) }
    else
      let text := composition.manifest.text
      match o.output with
      | none => { machine := m, output := text ++ "\n" }
      | some path =>
        match m.tree.write path m.stamp text.toUTF8 with
        | .ok tree => { machine := { m with tree } }
        | .error e => .failed m (.bare (.io e))

def run (m : Machine) (bindings : Bindings) (o : Options) : Outcome :=
  match composeFile m bindings o with
  | (.error e, m) => .failed m e
  | (.ok composition, m) =>
    let s := Supervision.ofManifest m { bindings } composition.manifest (o.grace * millisecond)
      (.watch none) 0
    match s.result? with
    | some (.error cause) => { Outcome.failed s.machine (.bare cause) with forwarded := s.forwarded }
    | _ => { machine := s.machine, forwarded := s.forwarded }

/-- Calls the program with some words and the bindings of its environment. -/
def call (m : Machine) (bindings : Bindings) (words : List String) : Outcome :=
  match readCall {} words with
  | .error .help => { machine := m }
  | .error .version => { machine := m, output := versionText }
  | .error _ => { exitCode := 2, machine := m }
  | .ok { command := .compose, options } => compose m bindings options
  | .ok { command := .run, options } => run m bindings options

end LaunchPlan.CommandLine
