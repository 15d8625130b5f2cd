import LaunchPlan.Bindings

/-!
# Options of the program

The program is called with a command, a launch file, values for arguments of the
launch, and options. An option may stand anywhere behind the command, and the two
that concern messages also in front of it. What follows `--` is no option.
-/

namespace LaunchPlan.CommandLine

/-- Why a call is not carried out. -/
inductive UsageFault
  | missingCommand
  | unknownCommand (name : String)
  | unknownOption (text : String)
  | missingValue (text : String)
  | invalidValue (text : String)
  | repeated (text : String)
  | missingFile
  /-- Help is asked for. -/
  | help
  /-- The version is asked for. -/
  | version
  deriving DecidableEq, Repr

inductive Flag
  | verbose
  | quiet
  | showArguments
  | output
  | commandTimeout
  | grace
  | help
  deriving DecidableEq, Repr

def Flag.takesValue : Flag → Bool
  | output | commandTimeout | grace => true
  | _ => false

inductive CommandName
  | compose
  | run
  deriving DecidableEq, Repr

/-- What a call says. Times are in milliseconds. -/
structure Options where
  file : Option String := none
  overrides : List (String × String) := []
  output : Option String := none
  commandTimeout : Nat := 30000
  grace : Nat := 5000
  /-- The options that were given. -/
  given : List Flag := []
  deriving DecidableEq, Repr

namespace Options

def showsArguments (o : Options) : Bool :=
  Flag.showArguments ∈ o.given

end Options

/-! ## Values -/

/-- The text before and after the first `:=`. -/
def cutAtAssignment : List Char → Option (List Char × List Char)
  | [] => none
  | ':' :: '=' :: cs => some ([], cs)
  | c :: cs => (cutAtAssignment cs).map fun (before, after) => (c :: before, after)

/-- The text before and after the first `=`. -/
def cutAtEquals : List Char → Option (List Char × List Char)
  | [] => none
  | c :: cs =>
    if c = '=' then some ([], cs)
    else (cutAtEquals cs).map fun (before, after) => (c :: before, after)

/-- A value for an argument of the launch, written `name:=value` or `name=value`. -/
def override? (text : String) : Option (String × String) :=
  match cutAtAssignment text.toList <|> cutAtEquals text.toList with
  | some ([], _) | none => none
  | some (name, value) => some (String.ofList name, String.ofList value)

/-- A number of 64 bits. -/
def number? (text : String) : Option Nat :=
  let digits := match text.toList with
    | '+' :: ds => ds
    | ds => ds
  if digits.isEmpty || !digits.all Char.isDigit then none
  else
    let n := digits.foldl (fun n d => n * 10 + (d.toNat - 48)) 0
    if n < 18446744073709551616 then some n else none

/-! ## Options -/

def longFlag? (command : Option CommandName) (name : String) : Option Flag :=
  match name, command with
  | "verbose", _ => some .verbose
  | "quiet", _ => some .quiet
  | "help", _ => some .help
  | "command-timeout-ms", some _ => some .commandTimeout
  | "output", some .compose => some .output
  | "show-args", some .compose => some .showArguments
  | "grace-period-ms", some .run => some .grace
  | _, _ => none

def shortFlag? (command : Option CommandName) (letter : Char) : Option Flag :=
  match letter, command with
  | 'v', _ => some .verbose
  | 'q', _ => some .quiet
  | 'h', _ => some .help
  | 'o', some .compose => some .output
  | _, _ => none

/-- Whether a word is an option, or several. -/
def isOption (word : String) : Bool :=
  match word.toList with
  | '-' :: _ :: _ => true
  | _ => false

/-- Sets an option that has no value. -/
def setFlag (o : Options) (flag : Flag) (text : String) : Except UsageFault Options :=
  if flag = .help then .error .help
  else if flag ∈ o.given then .error (.repeated text)
  else .ok { o with given := flag :: o.given }

/-- Sets an option to a value. -/
def setValue (o : Options) (flag : Flag) (value : String) : Except UsageFault Options := do
  let o ← setFlag o flag value
  match flag, number? value with
  | .output, _ => if value.isEmpty then throw (.invalidValue value) else return { o with output := some value }
  | .commandTimeout, some n => return { o with commandTimeout := n }
  | .grace, some n => return { o with grace := n }
  | _, _ => throw (.invalidValue value)

/-- An option of more than a letter, with its value if it is joined to it; the option that still
needs one is returned. -/
def readLong (command : Option CommandName) (o : Options) (text : List Char) :
    Except UsageFault (Options × Option Flag) := do
  let name := text.takeWhile (· ≠ '=')
  let value := if name.length = text.length then none else some (String.ofList (text.drop (name.length + 1)))
  match longFlag? command (String.ofList name), value with
  | none, _ =>
    if command.isNone && name = "version".toList && value.isNone then throw .version
    else throw (.unknownOption (String.ofList text))
  | some flag, none =>
    if flag.takesValue then return (o, some flag)
    else return (← setFlag o flag (String.ofList text), none)
  | some flag, some value =>
    if flag.takesValue then return (← setValue o flag value, none)
    else throw (.invalidValue value)

/-- Options of one letter each. What follows the first that takes a value is its value. -/
def readShort (command : Option CommandName) (o : Options) :
    List Char → Except UsageFault (Options × Option Flag)
  | [] => return (o, none)
  | letter :: letters => do
    match shortFlag? command letter with
    | none =>
      if command.isNone && letter = 'V' then throw .version
      else throw (.unknownOption (String.singleton letter))
    | some flag =>
      if flag.takesValue then
        match letters with
        | [] => return (o, some flag)
        | '=' :: value | value => return (← setValue o flag (String.ofList value), none)
      else readShort command (← setFlag o flag (String.singleton letter)) letters

def readOption (command : Option CommandName) (o : Options) (word : String) :
    Except UsageFault (Options × Option Flag) :=
  match word.toList with
  | '-' :: '-' :: text => readLong command o text
  | '-' :: letters => readShort command o letters
  | _ => .error (.unknownOption word)

/-- A word that is no option: the file first, then values for arguments. -/
def readOperand (o : Options) (word : String) : Except UsageFault Options :=
  match o.file with
  | none => if word.isEmpty then .error (.invalidValue word) else .ok { o with file := some word }
  | some _ =>
    match override? word with
    | some pair => .ok { o with overrides := o.overrides ++ [pair] }
    | none => .error (.invalidValue word)

/-- The words behind a command; `pending` is an option that waits for its value. -/
def readWords (command : CommandName) : (pending : Option Flag) → Options → List String →
    Except UsageFault Options
  | none, o, [] => .ok o
  | some _, _, [] => .error (.missingValue "")
  | some flag, o, word :: words =>
    if isOption word then .error (.missingValue word)
    else do readWords command none (← setValue o flag word) words
  | none, o, word :: words =>
    if word = "--" then words.foldlM readOperand o
    else if isOption word then do
      let (o, pending) ← readOption (some command) o word
      readWords command pending o words
    else do readWords command none (← readOperand o word) words

def commandName? : String → Option CommandName
  | "compose" => some .compose
  | "run" => some .run
  | _ => none

/-- What a call asks for. -/
structure Call where
  command : CommandName
  options : Options

/-- The words of a call, from the options in front of the command on. -/
def readCall (given : Options) : List String → Except UsageFault Call
  | [] => .error .missingCommand
  | word :: words =>
    if isOption word then do
      if word = "--" then throw .missingCommand
      let (given, _) ← readOption none given word
      readCall given words
    else
      match commandName? word with
      | some command => do
        let options ← readWords command none {} words
        if options.file.isNone then throw .missingFile
        return { command, options }
      | none =>
        if word = "help" then
          .error (if words.all fun w => w = "help" || (commandName? w).isSome then .help else .unknownCommand word)
        else .error (.unknownCommand word)

/-- The values for arguments that the launch is composed with: the last of each name. -/
def Options.bindings (o : Options) : Bindings :=
  Bindings.ofPairs o.overrides

end LaunchPlan.CommandLine
