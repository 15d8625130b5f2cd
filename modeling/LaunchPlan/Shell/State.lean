import LaunchPlan.Machine.Handle
import LaunchPlan.Shell.Pattern
import LaunchPlan.Shell.Reader

/-!
# The state of a shell

A shell runs one small step at a time. What it still has to do is a stack of
frames, the topmost first.
-/

namespace LaunchPlan.Shell

open Machine (Handle)

structure Variable where
  name : Octets
  value : Option Octets
  exported : Bool := false
  readOnly : Bool := false

/-- Where expanded text comes from: quotes, the script itself, or an expansion. Only the last is
split into fields, only the first is not matched against files. -/
inductive Origin
  | quoted
  | literal
  | expanded
  deriving DecidableEq, Repr

inductive Piece
  | text (octets : Octets) (origin : Origin)
  /-- Between two positional parameters. -/
  | cut
  /-- There are no positional parameters, so quotes around them alone make no field. -/
  | absent

/-- What is left to expand. -/
inductive Work
  /-- A part of a word; `inner` parts stand in an expansion. -/
  | part (part : Part) (inner : Bool)
  /-- The word of the parameter is expanded: what came before it is `outer`. -/
  | assign (name : Octets) (quoted : Bool) (outer : List Piece)
  | complain (name : Octets) (outer : List Piece)
  | trim (atEnd longest : Bool) (value : Octets) (quoted : Bool) (outer : List Piece)
  | evaluate (quoted : Bool) (outer : List Piece)

structure Expansion where
  todo : List Work
  done : List Piece := []

def Expansion.ofWord (word : Word) : Expansion :=
  { todo := word.map fun part => .part part false }

/-- A command on its way: the words still to expand and those that are, the targets of its
redirections, and its assignments. With a body, the redirections are for that. -/
structure Invocation where
  line : Nat := 0
  words : List Word := []
  fields : List Octets := []
  redirections : List Redirection := []
  assignments : List (Octets × Word) := []
  /-- The assignments that have been made. -/
  assigned : List (Octets × Octets) := []
  /-- What the redirections have replaced. -/
  saved : List (Nat × Option Handle) := []
  /-- What the assignments have replaced. -/
  shadowed : List (Octets × Option Variable) := []
  /-- The word that is expanded is an assignment and makes one field. -/
  declaring : Bool := false
  body : Option Command := none

/-- What an expanded word is for. -/
inductive Goal
  | field (invocation : Invocation)
  | target (invocation : Invocation) (descriptor : Nat) (kind : RedirectionKind)
  | value (invocation : Invocation) (name : Octets)
  | item (name : Octets) (words : List Word) (fields : List Octets) (body : Command)
  | subject (arms : List (List Word × Command))
  | pattern (subject : Octets) (patterns : List Word) (body : Command)
      (arms : List (List Word × Command))

inductive Frame
  /-- The rest of a script. -/
  | script (position : Position)
  | command (command : Command)
  | either (onSuccess : Bool) (second : Command)
  | negate
  | branch (body : Command) (otherwise : Option Command)
  /-- The condition of a loop has run. -/
  | condition (whileHolds : Bool) (condition body : Command) (status : Nat)
  /-- The body of a loop has run. -/
  | body (whileHolds : Bool) (condition body : Command)
  | each (name : Octets) (values : List Octets) (body : Command)
  /-- A function ends, or a script that was called like one. -/
  | call (positional : List Octets) (locals : List (Octets × Option Variable))
  | restore (saved : List (Nat × Option Handle)) (shadowed : List (Octets × Option Variable))
  /-- What is read by `eval` or `.` ends. -/
  | speaking (before : Option Octets)
  /-- The action of a trap ends. -/
  | trapped (status : Nat)
  /-- Programs in the foreground have to end; the status is that of the last. -/
  | await (pids : List Nat) (last : Nat)
  /-- Programs in the background have to end. -/
  | waitFor (pids : List Nat) (status : Nat) (named : Bool)
  | invoke (invocation : Invocation)
  | expand (expansion : Expansion) (goal : Goal)
  /-- The output of a script is read for the expansion below. -/
  | collect (pipe : Nat) (pid : Nat) (output : Octets) (quoted : Bool)
  /-- The script itself is read from the input. -/
  | scriptInput (text : Octets)
  | readLine (names : List Octets) (raw : Bool) (line : Marked)

structure State where
  /-- What the shell calls itself in messages. -/
  title : Octets
  /-- What the commands are read by, if that is named in messages too. -/
  speaker : Option Octets := none
  /-- The process that the first of the shells runs in. -/
  mainPid : Nat
  line : Nat := 1
  bindings : List Variable := []
  positional : List Octets := []
  functions : List (Octets × Command) := []
  status : Nat := 0
  /-- The status of the last output taken for the current command. -/
  outputStatus : Option Nat := none
  lastBackground : Option Nat := none
  /-- Programs in the background that have not been waited for. -/
  jobs : List Nat := []
  /-- The statuses of programs that have been waited for, as long as they are known. -/
  ended : List (Nat × Nat) := []
  /-- The actions of traps by signal, 0 being the end of the shell. -/
  traps : List (Nat × Octets) := []
  /-- The letters of the options that are set. -/
  options : Octets := []
  /-- The first of the shells tests whether the commands of this one fail. -/
  tested : Bool := false
  stack : List Frame := []

namespace State

def find? (s : State) (name : Octets) : Option Variable :=
  s.bindings.find? fun v => v.name = name

def value? (s : State) (name : Octets) : Option Octets :=
  (s.find? name).bind Variable.value

/-- The shell with a variable put in place of the one with its name. -/
def putVariable (s : State) (v : Variable) : State :=
  if s.bindings.any fun w => w.name = v.name then
    { s with bindings := s.bindings.map fun w => if w.name = v.name then v else w }
  else { s with bindings := s.bindings ++ [v] }

def dropVariable (s : State) (name : Octets) : State :=
  { s with bindings := s.bindings.filter fun v => v.name ≠ name }

def isReadOnly (s : State) (name : Octets) : Bool :=
  (s.find? name).any Variable.readOnly

def assign (s : State) (name value : Octets) : State :=
  let all := s.options.contains 'a'
  match s.find? name with
  | some v => s.putVariable { v with value := some value, exported := v.exported || all }
  | none => s.putVariable { name, value := some value, exported := all }

/-- Puts back what variables were before. -/
def unshadow (s : State) : List (Octets × Option Variable) → State
  | [] => s
  | (_, some v) :: rest => (s.putVariable v).unshadow rest
  | (name, none) :: rest => (s.dropVariable name).unshadow rest

/-- Variables are handed to programs in the order of this number. -/
def rank (name : Octets) : Nat :=
  match name with
  | [] => 0
  | c :: _ => (name.foldl (fun n c => n + c.toNat) (c.toNat * 16)) % 39

/-- What programs started by the shell get. -/
def environment (s : State) : List (Octets × Octets) :=
  let exported := s.bindings.filterMap fun v =>
    if v.exported then v.value.map fun value => (v.name, value) else none
  exported.mergeSort fun a b => rank a.1 ≤ rank b.1

def push (s : State) (frame : Frame) : State :=
  { s with stack := frame :: s.stack }

def decimalText (n : Nat) : Octets :=
  (toString n).toList

/-- The characters that separate fields. -/
def separators (s : State) : Octets :=
  (s.value? ['I', 'F', 'S']).getD [' ', '\t', '\n']

/-- The letters of all options, in the order in which they are listed. -/
def optionLetters : Octets :=
  "ubaCEVvxsnmiIfe".toList

def isOn (s : State) (letter : Char) : Bool :=
  letter ∈ s.options

/-- Sets or clears an option. -/
def switch (s : State) (on : Bool) (letter : Char) : State :=
  let others := s.options.filter (· ≠ letter)
  { s with options := if on then letter :: others else others }

@[simp] theorem isOn_switch_self (s : State) (on : Bool) (letter : Char) :
    (s.switch on letter).isOn letter = on := by
  cases on <;> simp [switch, isOn]

@[simp] theorem isOn_switch_of_ne (s : State) (on : Bool) {a b : Char} (h : a ≠ b) :
    (s.switch on b).isOn a = s.isOn a := by
  cases on <;> simp [switch, isOn, h]

/-- The value of a parameter, apart from the lists of all positional ones. -/
def parameter? (s : State) (name : Octets) : Option Octets :=
  match name with
  | ['?'] => some (decimalText s.status)
  | ['$'] => some (decimalText s.mainPid)
  | ['!'] => s.lastBackground.map decimalText
  | ['#'] => some (decimalText s.positional.length)
  | ['-'] => some (optionLetters.filter s.isOn)
  | ['@'] | ['*'] =>
    if s.positional.isEmpty then none else some ((s.separators.take 1).intercalate s.positional)
  | c :: _ =>
    if c.isDigit then
      let n := name.foldl (fun n d => n * 10 + (d.toNat - 48)) 0
      if n = 0 then some s.title else s.positional[n - 1]?
    else s.value? name
  | [] => none

/-- The action of a trap. -/
def trap? (s : State) (signal : Nat) : Option Octets :=
  s.traps.lookup signal

def hasTraps (s : State) : Bool :=
  s.traps.any fun (_, action) => !action.isEmpty

/-- Whether a failure of the current command is tested by a command around it. -/
def isTested (s : State) : Bool :=
  s.tested || s.stack.any fun frame =>
    match frame with
    | .either .. | .negate | .branch .. | .condition .. => true
    | _ => false

/-- The shell of a new process: it runs `command`, its traps are gone except those that ignore a
signal, and it has no jobs of its own. -/
def fork (s : State) (tested : Bool) (command : Command) : State :=
  { s with
    stack := [.command command]
    jobs := []
    ended := []
    tested
    traps := s.traps.filter fun (signal, action) => action.isEmpty && signal ≠ 0 }

end State

end LaunchPlan.Shell
