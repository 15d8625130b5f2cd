import LaunchPlan.Condition
import LaunchPlan.OutputMode

/-!
# Launch descriptions

A description is a list of actions: declaring an argument, starting a process,
including another description. Every text in it that may depend on the launch is
a list of expressions.
-/

namespace LaunchPlan

/-- Declares a launch argument. -/
structure ArgumentAction where
  name : String
  default : Option (List Substitution) := none
  description : String := ""
  choices : Option (List String) := none
  conditions : List Condition := []

/-- A process to start. -/
structure ProcessTemplate where
  package : Option (List Substitution) := none
  executable : List Substitution
  name : Option (List Substitution) := none
  space : Option (List Substitution) := none
  arguments : List (List Substitution) := []
  parameters : List (String × List Substitution) := []
  paramFiles : List (List Substitution) := []
  environment : List (String × List Substitution) := []
  output : OutputMode := .log
  critical : Bool := false
  conditions : List Condition := []

/-- Includes another description. The overrides are set in order: later ones see earlier ones. -/
structure Inclusion where
  locator : List Substitution
  overrides : List (String × List Substitution) := []
  conditions : List Condition := []

inductive Action
  | argument (action : ArgumentAction)
  | process (template : ProcessTemplate)
  | inclusion (action : Inclusion)

abbrev Description := List Action

/-- Stands in labels for what is known only at launch time. -/
def unresolvedLabel : String := "$(...)"

/-- A part of the name of a process. -/
def Substitution.nameLabel : Substitution → String
  | text s => s
  | argument name => "$(var " ++ name ++ ")"
  | _ => unresolvedLabel

/-- A part of a locator. -/
def Substitution.locatorLabel : Substitution → String
  | text s => s
  | _ => unresolvedLabel

/-- How messages name a process: by its name, else by its executable. -/
def ProcessTemplate.label (p : ProcessTemplate) : String :=
  String.join ((p.name.getD p.executable).map Substitution.nameLabel)

def Inclusion.label (i : Inclusion) : String :=
  String.join (i.locator.map Substitution.locatorLabel)

namespace Action

def conditions : Action → List Condition
  | argument a => a.conditions
  | process p => p.conditions
  | inclusion i => i.conditions

/-- How a failure names the action it arose in. -/
def identity : Action → String
  | argument a => "argument '" ++ a.name ++ "'"
  | process p => "process '" ++ p.label ++ "'"
  | inclusion i => "include '" ++ i.label ++ "'"

end Action

end LaunchPlan
