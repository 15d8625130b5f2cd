import LaunchPlan.Bindings
import LaunchPlan.OutputMode
import LaunchPlan.Package

/-!
# Processes

A process with everything resolved: the program, its arguments, what it is told
about its name and parameters, and where its output goes.
-/

namespace LaunchPlan

structure PlannedProcess where
  package : Option String := none
  executable : String
  name : Option String := none
  space : Option String := none
  arguments : List String := []
  parameters : Bindings := []
  /-- The files whose parameters are among `parameters`. -/
  paramFiles : List String := []
  environment : List (String × String) := []
  output : OutputMode := .log
  critical : Bool := false
  deriving DecidableEq, Repr, Inhabited

namespace PlannedProcess

/-- The name in reports and in front of output lines. -/
def displayName (p : PlannedProcess) : String :=
  p.name.getD p.executable

/-- Sets a parameter; a new one comes last. -/
def setParameter (p : PlannedProcess) (key value : String) : PlannedProcess :=
  { p with parameters := p.parameters.set key value }

def parameter? (p : PlannedProcess) (key : String) : Option String :=
  p.parameters.get? key

/-- The program to start: that of the package if a file is there, else the executable as it is
named. -/
def program (present : String → Bool) (env : Environment) (p : PlannedProcess) : String :=
  (p.package.bind fun package => Package.program? present env package p.executable).getD
    p.executable

/-- What tells a node of its name, its namespace and its parameters. -/
def nodeArguments (p : PlannedProcess) : List String :=
  (p.name.map fun name => ["-r", "__node:=" ++ name]).getD [] ++
    (p.space.map fun space => ["-r", "__ns:=" ++ space]).getD [] ++
    p.parameters.flatMap fun (key, value) => ["-p", key ++ ":=" ++ value]

/-- The program and its arguments. -/
def commandLine (present : String → Bool) (env : Environment) (p : PlannedProcess) : List String :=
  let node := p.nodeArguments
  p.program present env :: p.arguments ++ if node.isEmpty then [] else "--ros-args" :: node

def describe (p : PlannedProcess) : String :=
  match p.package with
  | some package => p.displayName ++ " (" ++ package ++ "/" ++ p.executable ++ ")"
  | none => p.displayName ++ " (" ++ p.executable ++ ")"

end PlannedProcess

/-- The processes of a launch, in order. -/
structure Manifest where
  processes : List PlannedProcess := []
  deriving DecidableEq, Repr, Inhabited

namespace Manifest

/-- The first process with this name. -/
def find? (m : Manifest) (name : String) : Option PlannedProcess :=
  m.processes.find? fun p => p.displayName = name

end Manifest

end LaunchPlan
