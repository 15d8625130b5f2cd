import LaunchPlan.Text.Octets

/-!
# Commands of the shell

The syntax of shell scripts: words with quoting and expansions, and commands made
of words, redirections and other commands.
-/

namespace LaunchPlan.Shell

inductive RedirectionKind
  | read
  | write
  /-- As `write`, also where the options keep files from being overwritten. -/
  | overwrite
  | append
  | readWrite
  /-- The descriptor becomes another name of the one that the word names. -/
  | duplicate
  /-- The word itself is what is read. -/
  | content
  deriving DecidableEq, Repr

mutual

/-- A part of a word. What is quoted is neither split nor matched against files. -/
inductive Part
  | text (octets : Octets) (quoted : Bool)
  | parameter (name : Octets) (change : Change) (quoted : Bool)
  /-- What a script prints. -/
  | output (body : List Command) (quoted : Bool)
  /-- The value of an arithmetic expression. -/
  | sum (expression : List Part) (quoted : Bool)

/-- What is made of the value of a parameter. With `empty`, an empty value counts as unset. -/
inductive Change
  | keep
  | length
  | default (empty : Bool) (word : List Part)
  | assign (empty : Bool) (word : List Part)
  | complain (empty : Bool) (word : List Part)
  | alternative (empty : Bool) (word : List Part)
  | trim (atEnd longest : Bool) (pattern : List Part)
  /-- No known change is written here. -/
  | faulty

inductive Redirection
  | mk (descriptor : Nat) (kind : RedirectionKind) (target : List Part)

inductive Command
  | simple (line : Nat) (assignments : List (Octets × List Part)) (words : List (List Part))
      (redirections : List Redirection)
  | pipeline (commands : List Command)
  | negation (command : Command)
  /-- The second command runs if the first one succeeds, or fails. -/
  | either (onSuccess : Bool) (first second : Command)
  | sequence (commands : List Command)
  | background (command : Command)
  | subshell (body : Command)
  | redirected (command : Command) (redirections : List Redirection)
  | branch (condition body : Command) (otherwise : Option Command)
  /-- Repeats while the condition succeeds, or until it does. -/
  | loop (whileHolds : Bool) (condition body : Command)
  /-- Without words, the positional parameters are taken. -/
  | each (name : Octets) (words : Option (List (List Part))) (body : Command)
  | choice (word : List Part) (arms : List (List (List Part) × Command))
  | define (name : Octets) (body : Command)

end

abbrev Word := List Part

/-- The builtins after whose failure the shell ends, whose assignments stay, and whose names no
function can have. -/
def specialBuiltins : List String :=
  [".", ":", "break", "continue", "eval", "exec", "exit", "export", "local", "readonly", "return",
    "set", "shift", "times", "trap", "unset"]

def isSpecialBuiltin (name : Octets) : Bool :=
  String.ofList name ∈ specialBuiltins

def isNameStart (c : Char) : Bool :=
  c.isAlpha || c = '_'

def isNameChar (c : Char) : Bool :=
  isNameStart c || c.isDigit

/-- Whether a text can be the name of a variable or a function. -/
def isName (text : Octets) : Bool :=
  text.head?.any isNameStart && text.all isNameChar

instance : Inhabited Part := ⟨.text [] false⟩

instance : Inhabited Command := ⟨.sequence []⟩

end LaunchPlan.Shell
