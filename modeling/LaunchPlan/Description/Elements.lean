import LaunchPlan.Description
import LaunchPlan.Description.Attributes
import LaunchPlan.Substitution.Reader
import LaunchPlan.Xml.Reader

/-!
# Descriptions from documents

A description is written as a `launch` element whose children are its actions:
`arg`, `node`, `executable` and `include`. Attributes are read in a fixed order,
so of several faults the first in that order is reported. Attributes that mean
nothing are ignored; elements that mean nothing are refused.
-/

namespace LaunchPlan.Description

open Xml (Element)

/-- The expressions of a text. -/
def expression (text : String) : Except ParseError (List Substitution) :=
  (Substitution.read text).mapError .invalidSubstitution

/-- The expressions of each word of a text. -/
def expressions (text : String) : Except ParseError (List (List Substitution)) :=
  (Substitution.readWords text).mapError .invalidSubstitution

def expression? (e : Element) (name : String) : Except ParseError (Option (List Substitution)) :=
  match e.attribute? name with
  | none => .ok none
  | some text => some <$> expression text

def requiredExpression (e : Element) (name : String) : Except ParseError (List Substitution) := do
  expression (← e.require name)

/-- The words of an attribute, none when it is not there. -/
def wordList (e : Element) (name : String) : Except ParseError (List (List Substitution)) :=
  match e.attribute? name with
  | none => .ok []
  | some text => expressions text

/-- The conditions of an action: that of `if`, then that of `unless`. -/
def readConditions (e : Element) : Except ParseError (List Condition) := do
  let holds ← expression? e "if"
  let fails ← expression? e "unless"
  return (holds.map Condition.ifTrue).toList ++ (fails.map Condition.ifFalse).toList

/-- A child with a name and a value. -/
def readBinding (e : Element) : Except ParseError (String × List Substitution) := do
  let name ← e.require "name"
  return (name, ← requiredExpression e "value")

/-- The choices of a comma separated list, without blanks around them and without empty ones. -/
def choiceList (text : String) : List String :=
  ((text.toList.splitOn ',').map fun piece => String.ofList (Text.trim piece)).filter (· ≠ "")

def readChoice (e : Element) : Except ParseError String :=
  if e.name = "choice" then e.require "value"
  else .error (.unexpectedElement "arg" e.name)

/-- The choices of an argument: those of its attribute, then those of its children; none when it
has neither. -/
def readChoices (e : Element) : Except ParseError (Option (List String)) := do
  let listed := (e.attribute? "choices").map choiceList
  let children ← e.children.mapM readChoice
  return if children.isEmpty then listed else some (listed.getD [] ++ children)

def readArgument (e : Element) : Except ParseError ArgumentAction := do
  let name ← e.require "name"
  let default ← expression? e "default"
  let description := (e.attribute? "description").getD ""
  let choices ← readChoices e
  let conditions ← readConditions e
  return { name, default, description, choices, conditions }

/-- A process with the attributes that both elements for processes have. -/
def readCommon (e : Element) : Except ParseError ProcessTemplate := do
  let name ← expression? e "name"
  let space ← expression? e "namespace"
  let output ← e.attributeAs? "output" .outputMode OutputMode.ofText?
  let critical ← e.attributeAs? "critical" .flag flag?
  let conditions ← readConditions e
  return { executable := [], name, space, output := output.getD .log,
           critical := critical.getD false, conditions }

/-- Adds what a child says of the process in the element `parent`. -/
def readChild (parent : String) (p : ProcessTemplate) (e : Element) :
    Except ParseError ProcessTemplate :=
  match e.name with
  | "param" =>
    match e.attribute? "from" with
    | some text => do return { p with paramFiles := p.paramFiles ++ [← expression text] }
    | none => do return { p with parameters := p.parameters ++ [← readBinding e] }
  | "arg" => do return { p with arguments := p.arguments ++ [← requiredExpression e "value"] }
  | "env" => do return { p with environment := p.environment ++ [← readBinding e] }
  | other => .error (.unexpectedElement parent other)

def readNode (e : Element) : Except ParseError ProcessTemplate := do
  let package ← expression? e "pkg"
  let executable ← requiredExpression e "exec"
  let arguments ← wordList e "args"
  let common ← readCommon e
  e.children.foldlM (readChild "node") { common with package, executable, arguments }

/-- The first word of the command is the program, the others are its first arguments. -/
def readExecutable (e : Element) : Except ParseError ProcessTemplate := do
  match ← expressions (← e.require "cmd") with
  | [] => .error (.invalidSubstitution .emptyCommand)
  | executable :: words =>
    let common ← readCommon e
    let arguments ← wordList e "args"
    e.children.foldlM (readChild "executable")
      { common with executable, arguments := words ++ arguments }

def readOverride (e : Element) : Except ParseError (String × List Substitution) :=
  if e.name = "arg" then readBinding e
  else .error (.unexpectedElement "include" e.name)

def readInclusion (e : Element) : Except ParseError Inclusion := do
  let locator ← requiredExpression e "file"
  let overrides ← e.children.mapM readOverride
  let conditions ← readConditions e
  return { locator, overrides, conditions }

def readAction (e : Element) : Except ParseError Action :=
  match e.name with
  | "arg" => .argument <$> readArgument e
  | "node" => .process <$> readNode e
  | "executable" => .process <$> readExecutable e
  | "include" => .inclusion <$> readInclusion e
  | other => .error (.unexpectedElement "launch" other)

/-- The description in a document. -/
def ofElement (e : Element) : Except ParseError Description :=
  if e.name = "launch" then e.children.mapM readAction
  else .error (.unexpectedElement "document" e.name)

/-- The description that a text writes. -/
def read (text : String) : Except ParseError Description := do
  ofElement (← (Xml.readDocument text).mapError .xml)

end LaunchPlan.Description
