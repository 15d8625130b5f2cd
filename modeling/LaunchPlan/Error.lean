import LaunchPlan.ExitStatus
import LaunchPlan.IoError
import LaunchPlan.Substitution.Malformed
import LaunchPlan.Text.Duration
import LaunchPlan.Xml.Malformed
import LaunchPlan.Yaml.Malformed

/-!
# Failures

Three layers: reading a description or a parameter file, resolving an
expression, and launching. Each layer is a type of causes with one function for
its wording. A failure of launching may also say which action it arose in.
-/

namespace LaunchPlan

/-- What the value of an attribute is read as. -/
inductive AttributeType
  | text
  | flag
  /-- A signed number of 32 bits. -/
  | integer
  /-- A number from 0 to 255. -/
  | octet
  | outputMode
  deriving DecidableEq, Repr

def AttributeType.name : AttributeType → String
  | text => "alloc::string::String"
  | flag => "bool"
  | integer => "i32"
  | octet => "u8"
  | outputMode => "scene_launch::manifest::OutputMode"

/-- Why a file does not hold parameters. -/
inductive ParamFileFault
  | notYaml (cause : Yaml.Malformed)
  /-- The document is neither empty nor a mapping. -/
  | noSections
  /-- The parameters of a section are not a mapping. -/
  | notAMapping (name : String)
  deriving DecidableEq, Repr

def ParamFileFault.message : ParamFileFault → String
  | notYaml cause => cause.reason
  | noSections => "top level must be a mapping of node names"
  | notAMapping name => "'" ++ name ++ ".ros__parameters' must be a mapping"

inductive ParseError
  | xml (cause : Xml.Malformed)
  | missingAttribute (element name : String)
  | typeCoercion (name value : String) (expected : AttributeType)
  | unexpectedElement (parent child : String)
  | invalidSubstitution (cause : Malformed)
  | invalidParamFile (path : String) (cause : ParamFileFault)
  | io (cause : IoError)
  deriving DecidableEq, Repr

def ParseError.message : ParseError → String
  | xml cause => "XML parsing error: " ++ cause.reason
  | missingAttribute element name =>
    "Missing required attribute '" ++ name ++ "' on element '<" ++ element ++ ">'"
  | typeCoercion name value expected =>
    "Type coercion failed for attribute '" ++ name ++ "' with value '" ++ value ++
      "' (expected " ++ expected.name ++ ")"
  | unexpectedElement parent child =>
    "Unexpected element '<" ++ child ++ ">' in '<" ++ parent ++ ">'"
  | invalidSubstitution cause => "Invalid substitution syntax: " ++ cause.message
  | invalidParamFile path cause => "Invalid parameter file " ++ path ++ ": " ++ cause.message
  | io cause => "IO error: " ++ cause.message

/-- Why a command line is none. -/
inductive CommandLineFault
  | unclosedQuote (line : String)
  | empty
  deriving DecidableEq, Repr

def CommandLineFault.message : CommandLineFault → String
  | unclosedQuote line => "missing closing quote in command: " ++ line
  | empty => "command substitution is empty"

inductive SubstitutionError
  | undefinedVariable (name : String)
  | undefinedEnvironment (name : String)
  | packageNotFound (name : String)
  | invalidCommandLine (cause : CommandLineFault)
  | commandNotFound (command : String) (cause : IoError)
  | commandFailed (command : String) (status : ExitStatus) (output : String)
  /-- The time a command had, in nanoseconds. -/
  | commandTimeout (command : String) (nanos : Nat)
  | noMatchingCase (value : String) (keys : List String)
  | invalidCondition (value : String)
  deriving DecidableEq, Repr

def SubstitutionError.message : SubstitutionError → String
  | undefinedVariable name =>
    "Undefined variable: '" ++ name ++ "'. Did you forget to declare it with <arg>?"
  | undefinedEnvironment name =>
    "Undefined environment variable: '" ++ name ++
      "'. Make sure the variable is set in your environment."
  | packageNotFound name =>
    "Package '" ++ name ++ "' not found. Ensure the package is installed and sourced."
  | invalidCommandLine cause => "Invalid substitution: " ++ cause.message
  | commandNotFound command cause => "Command not found: '" ++ command ++ "': " ++ cause.message
  | commandFailed command status output =>
    "Command '" ++ command ++ "' failed with " ++ status.describe ++ ": " ++ output
  | commandTimeout command nanos =>
    "Command '" ++ command ++ "' did not finish within " ++ Text.duration nanos
  | noMatchingCase value keys =>
    "No case matches value '" ++ value ++ "' (cases: " ++ Text.listing keys ++ ")"
  | invalidCondition value => "Invalid condition value '" ++ value ++ "' (expected true/false)"

inductive LaunchCause
  | duplicateArgument (name : String)
  | unresolvedArgument (name : String)
  | invalidChoice (name value : String) (choices : List String)
  | resolution (cause : SubstitutionError)
  | includeNotFound (locator reason : String)
  /-- The descriptions that are being composed, outermost first, and then the one met again. -/
  | includeCycle (chain : List String)
  /-- The source has fewer descriptions than are being composed at once. -/
  | includeTooDeep (locator : String)
  | parse (locator : String) (cause : ParseError)
  | spawn (name : String) (cause : IoError)
  | unexpectedExit (name status : String)
  | io (cause : IoError)
  deriving DecidableEq, Repr

def LaunchCause.message : LaunchCause → String
  | duplicateArgument name => "Argument '" ++ name ++ "' is already declared in this scope"
  | unresolvedArgument name =>
    "Argument '" ++ name ++ "' has no value: no override was given and it declares no default"
  | invalidChoice name value choices =>
    "Argument '" ++ name ++ "' got '" ++ value ++ "', expected one of " ++ Text.listing choices
  | resolution cause => "Substitution error: " ++ cause.message
  | includeNotFound locator reason =>
    "Included description '" ++ locator ++ "' not found: " ++ reason
  | includeCycle chain => "Include cycle detected: " ++ " -> ".intercalate chain
  | includeTooDeep locator => "Included description '" ++ locator ++ "' is nested too deeply"
  | parse locator cause => "Failed to parse '" ++ locator ++ "': " ++ cause.message
  | spawn name cause => "Failed to spawn process '" ++ name ++ "': " ++ cause.message
  | unexpectedExit name status =>
    "Critical process '" ++ name ++ "' exited unexpectedly (" ++ status ++ ")"
  | io cause => "IO error: " ++ cause.message

/-- A failed launch. -/
inductive LaunchError
  | bare (cause : LaunchCause)
  /-- A failure that arose in an action. -/
  | action (identity : String) (source : LaunchError)
  deriving DecidableEq, Repr

namespace LaunchError

/-- Records the action that a failure arose in; one that is recorded already stays. -/
def inAction (e : LaunchError) (identity : String) : LaunchError :=
  match e with
  | action .. => e
  | bare _ => action identity e

/-- The failure without the actions it arose in. -/
def root : LaunchError → LaunchError
  | action _ source => source.root
  | e => e

/-- What has gone wrong, whatever the action. -/
def cause : LaunchError → LaunchCause
  | bare cause => cause
  | action _ source => source.cause

def message : LaunchError → String
  | bare cause => cause.message
  | action identity source => "In " ++ identity ++ ": " ++ source.message

/-- The exit code of a program that ends with this failure. -/
def exitCode (e : LaunchError) : Nat :=
  match e.root with
  | bare (.unexpectedExit ..) => 2
  | _ => 1

theorem root_eq (e : LaunchError) : e.root = bare e.cause := by
  induction e with
  | bare cause => rfl
  | action _ source ih => exact ih

/-- The innermost action is the one that counts. -/
@[simp] theorem inAction_inAction (e : LaunchError) (inner outer : String) :
    (e.inAction inner).inAction outer = e.inAction inner := by
  cases e <;> rfl

@[simp] theorem cause_inAction (e : LaunchError) (identity : String) :
    (e.inAction identity).cause = e.cause := by
  cases e <;> rfl

@[simp] theorem root_inAction (e : LaunchError) (identity : String) :
    (e.inAction identity).root = e.root := by
  rw [root_eq, root_eq, cause_inAction]

@[simp] theorem exitCode_inAction (e : LaunchError) (identity : String) :
    (e.inAction identity).exitCode = e.exitCode := by
  rw [exitCode, exitCode, root_inAction]

end LaunchError

end LaunchPlan
