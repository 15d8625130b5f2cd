import LaunchPlan.Shell.Scene
import LaunchPlan.Utility.Echo
import LaunchPlan.Utility.Printf
import LaunchPlan.Utility.Test

/-!
# What is built into the shell

Most builtins act at once on their arguments and return a status. A few only
begin something, whose end sets the status.
-/

namespace LaunchPlan.Shell

open Machine (Job)

/-- The builtins whose arguments may be assignments. -/
def isDeclaring (name : Octets) : Bool :=
  String.ofList name ∈ ["export", "readonly", "local"]

def failWith (said : String) : Acting Nat :=
  throw (.failure said.toList)

def illegalNumber {α : Type} (text : Octets) : Acting α :=
  throw (.failure ("Illegal number: ".toList ++ text))

def natural? (text : Octets) : Option Nat :=
  if text.isEmpty || !text.all Char.isDigit then none
  else some (text.foldl (fun n d => n * 10 + (d.toNat - 48)) 0)

/-- A count given as the only argument. -/
def count (standard : Nat) : List Octets → Acting Nat
  | [] => return standard
  | text :: _ =>
    match natural? text with
    | some n => return n
    | none => illegalNumber text

/-! ## Leaving -/

def Frame.isLoop : Frame → Bool
  | .condition .. | .body .. | .each .. => true
  | _ => false

def Frame.isCall : Frame → Bool
  | .call .. => true
  | _ => false

/-- Leaves `n` loops, apart from the frame of the last, which is the topmost then. -/
def leaveLoops : (n : Nat) → Acting Unit
  | 0 => pure ()
  | n + 1 => do
    leaveUntil Frame.isLoop
    if n ≠ 0 then
      changeShell fun s => { s with stack := s.stack.tail }
      leaveLoops n

/-- How many loops are around the current command. -/
def loopDepth (stack : List Frame) : Nat :=
  ((stack.takeWhile fun frame => !frame.isCall).filter Frame.isLoop).length

def breakLoops (continues : Bool) (arguments : List Octets) : Acting Nat := do
  let n ← count 1 arguments
  if n = 0 then illegalNumber ['0']
  else
    let n := min n (loopDepth (← shell).stack)
    if n = 0 then return 0
    else
      leaveLoops n
      changeShell fun s =>
        { s with
          status := 0
          stack :=
            match s.stack with
            | .condition whileHolds condition body _ :: rest =>
              if continues then .body whileHolds condition body :: rest else rest
            | frame :: rest => if continues then frame :: rest else rest
            | [] => [] }
      return 0

/-- The status that `exit` and `return` go on with. -/
def currentStatus : Acting Nat := do
  let s ← shell
  let before := s.stack.findSome? fun frame =>
    match frame with
    | .trapped status => some status
    | _ => none
  return before.getD s.status

def exit (arguments : List Octets) : Acting Nat := do
  let status ← count (← currentStatus) arguments
  throw (.ends (status % 256))

def returnFrom (arguments : List Octets) : Acting Nat := do
  let status ← count (← shell).status arguments
  if (← shell).stack.any Frame.isCall then
    leaveUntil Frame.isCall
    match (← shell).stack with
    | frame :: rest =>
      changeShell fun s => { s with stack := rest }
      leave frame
    | [] => pure ()
    return status
  else throw (.ends (status % 256))

/-! ## Variables -/

/-- A name, with the value it is given. -/
def declared (text : Octets) : Acting (Octets × Option Octets) := do
  let name := text.takeWhile (· ≠ '=')
  if !isName name then throw (.failure (name ++ ": bad variable name".toList))
  let value := (text.drop name.length).tail
  return (name, if name.length = text.length then none else some value)

/-- Gives a variable a value, unless it may not be changed. -/
def assign (name value : Octets) : Acting Unit := do
  if (← shell).isReadOnly name then throw (.failure (name ++ ": is read only".toList))
  changeShell fun s => s.assign name value

/-- Changes how a variable is kept, which is made if there is none. -/
def mark (name : Octets) (change : Variable → Variable) : Acting Unit :=
  changeShell fun s => s.putVariable (change ((s.find? name).getD { name, value := none }))

/-- A value in quotes, to be read again. -/
def quotedValue (value : Octets) : Octets :=
  ['\''] ++ value.flatMap (fun c => if c = '\'' then "'\"'\"'".toList else [c]) ++ ['\'']

/-- Prints variables as commands. -/
def listVariables (command : String) (chosen : Variable → Bool) : Acting Nat := do
  let bindings := ((← shell).bindings.filter chosen).mergeSort fun a b => a.name.precedes b.name
  write 1 (bindings.flatMap fun v =>
    command.toList ++ v.name ++ v.value.elim [] (fun value => '=' :: quotedValue value) ++ ['\n'])
  return 0

def declare (command : String) (chosen : Variable → Bool) (change : Variable → Variable)
    (arguments : List Octets) : Acting Nat := do
  match arguments with
  | [] | [['-', 'p']] => listVariables command chosen
  | _ =>
    arguments.forM fun text => do
      let (name, value) ← declared text
      if let some value := value then assign name value
      mark name change
    return 0

/-- Notes what a variable was before the current function. -/
def shadow (name : Octets) (old : Option Variable) : List Frame → List Frame
  | [] => []
  | .call positional locals :: rest => .call positional ((name, old) :: locals) :: rest
  | frame :: rest => frame :: shadow name old rest

/-- Makes variables local to the current function. -/
def makeLocal (arguments : List Octets) : Acting Nat := do
  if !((← shell).stack.any Frame.isCall) then failWith "not in a function"
  else
    arguments.forM fun text => do
      let (name, value) ← declared text
      changeShell fun s => { s with stack := shadow name (s.find? name) s.stack }
      if let some value := value then assign name value
    return 0

def unset : List Octets → Acting Nat
  | ['-', 'f'] :: names => do
    changeShell fun s => { s with functions := s.functions.filter fun (n, _) => n ∉ names }
    return 0
  | ['-', 'v'] :: names | names => do
    names.forM fun name => do
      if !isName name then throw (.failure (name ++ ": bad variable name".toList))
      if (← shell).isReadOnly name then throw (.failure (name ++ ": is read only".toList))
      changeShell fun s => s.dropVariable name
    return 0

def shift (arguments : List Octets) : Acting Nat := do
  let n ← count 1 arguments
  if (← shell).positional.length < n then failWith "can't shift that many"
  else
    changeShell fun s => { s with positional := s.positional.drop n }
    return 0

/-- Sets an option by its letter. -/
def setOption (on : Bool) (letter : Char) : Acting Unit :=
  match letter with
  | 'e' | 'u' | 'x' | 'v' | 'f' | 'n' | 'a' | 'b' | 'm' | 'C' => changeShell fun s => s.switch on letter
  | _ => throw (.failure ("Illegal option -".toList ++ [letter]))

def setNamedOption (on : Bool) (name : Octets) : Acting Unit :=
  match String.ofList name with
  | "errexit" => setOption on 'e'
  | "nounset" => setOption on 'u'
  | "xtrace" => setOption on 'x'
  | "verbose" => setOption on 'v'
  | "noglob" => setOption on 'f'
  | "noexec" => setOption on 'n'
  | "allexport" => setOption on 'a'
  | "notify" => setOption on 'b'
  | "monitor" => setOption on 'm'
  | "noclobber" => setOption on 'C'
  | _ => throw (.failure ("Illegal option -o ".toList ++ name))

/-- Sets options and positional parameters. -/
def setAll : List Octets → Acting Nat
  | [] => return 0
  | ['-', '-'] :: values => do
    changeShell fun s => { s with positional := values }
    return 0
  | ['-', 'o'] :: name :: rest => do
    setNamedOption true name
    setAll rest
  | ['+', 'o'] :: name :: rest => do
    setNamedOption false name
    setAll rest
  | ('-' :: c :: letters) :: rest => do
    (c :: letters).forM (setOption true)
    setAll rest
  | ('+' :: c :: letters) :: rest => do
    (c :: letters).forM (setOption false)
    setAll rest
  | values => do
    changeShell fun s => { s with positional := values }
    return 0

def setBuiltin (arguments : List Octets) : Acting Nat :=
  if arguments.isEmpty then listVariables "" fun v => v.value.isSome else setAll arguments

/-! ## Directories -/

def workingDirectory : Acting Octets := do
  return Octets.ofText (Path.ofSteps ((← job?).elim [] Job.directory))

def changeDirectory (arguments : List Octets) : Acting Nat := do
  let s ← shell
  let target := match arguments with
    | [] => s.value? "HOME".toList
    | ['-'] :: _ => s.value? "OLDPWD".toList
    | directory :: _ => some directory
  match target with
  | none => return 0
  | some directory =>
    let tree ← view
    match tree.locate (if directory.isEmpty then "." else directory.toText) with
    | .error _ => throw (.failure ("can't cd to ".toList ++ directory))
    | .ok location =>
      if !tree.isDirectoryAt location then throw (.failure ("can't cd to ".toList ++ directory))
      let old ← workingDirectory
      changeJob fun j => { j with directory := location }
      let new ← workingDirectory
      let set (name : String) (value : Octets) : Acting Unit :=
        changeShell fun s => s.putVariable { name := name.toList, value := some value, exported := true }
      set "OLDPWD" old
      set "PWD" new
      if arguments.head? = some ['-'] then write 1 (new ++ ['\n'])
      return 0

/-! ## Signals -/

def signalNumber (name : Octets) : Acting Nat := do
  match Machine.Signal.ofName? (String.ofList name) with
  | some n => return n
  | none => throw (.failure (name ++ ": bad trap".toList))

/-- Sets or, without an action, resets the trap of a signal. -/
def setTrap (action : Option Octets) (signal : Nat) : Acting Unit := do
  changeShell fun s =>
    let others := s.traps.filter fun (n, _) => n ≠ signal
    { s with traps := action.elim others fun a => others ++ [(signal, a)] }
  changeJob fun j =>
    let others := j.ignored.filter (· ≠ signal)
    { j with ignored := if action = some [] && signal ≠ 0 then signal :: others else others }

def signalText (signal : Nat) : Octets :=
  if signal = 0 then "EXIT".toList
  else (Machine.Signal.names[signal - 1]?.getD (toString signal)).toList

def trap : List Octets → Acting Nat
  | [] => do
    let traps := (← shell).traps.mergeSort fun a b => a.1 ≤ b.1
    write 1 (traps.flatMap fun (signal, action) =>
      "trap -- ".toList ++ quotedValue action ++ [' '] ++ signalText signal ++ ['\n'])
    return 0
  | ['-', '-'] :: action :: signals => set (some action) signals
  | ['-'] :: signals => set none signals
  | [signal] => set none [signal]
  | action :: signals =>
    if (natural? action).isSome then set none (action :: signals) else set (some action) signals
where
  set (action : Option Octets) (signals : List Octets) : Acting Nat := do
    signals.forM fun name => do setTrap action (← signalNumber name)
    return 0

/-- Sends a signal to what a word names: a program, or a group of them. -/
def sendTo (signal : Nat) (word : Octets) : Acting Bool := do
  let scene ← get
  let machine := scene.machine
  let group := (machine.job? scene.pid).elim 0 Job.group
  let toGroup (group : Nat) : Acting Bool := do
    set { scene with machine := machine.sendGroup signal group }
    return machine.jobs.any fun j => j.group = group
  let toProgram (number : Nat) : Acting Bool := do
    set { scene with machine := machine.send signal number }
    return (machine.job? number).isSome
  match word with
  | '%' :: _ =>
    match scene.shell.lastBackground with
    | some number => toGroup number
    | none => throw (.failure ("No such job: ".toList ++ word))
  | '-' :: digits =>
    match natural? digits with
    | some number => toGroup number
    | none => illegalNumber word
  | digits =>
    match natural? digits with
    | some 0 => toGroup group
    | some number => toProgram number
    | none => illegalNumber word

def sendAll (signal : Nat) : List Octets → Acting Nat
  | [] => return 0
  | word :: words => do
    let found ← sendTo signal word
    if !found then complainOf "kill" "No such process\n".toList
    let status ← sendAll signal words
    return if found then status else 1

/-- The name of the signal with a number, or of that which a status says. -/
def signalNamed (text : Octets) : Acting Octets := do
  match natural? text with
  | none => illegalNumber text
  | some n =>
    match Machine.Signal.names[(if 128 < n then n - 128 else n) - 1]? with
    | some name => return name.toList
    | none => throw (.failure ("invalid signal number or exit status: ".toList ++ text))

def kill : List Octets → Acting Nat
  | [['-', 's']] => failWith "No arg for -s option"
  | ['-', 's'] :: name :: words | ('-' :: 's' :: name) :: words =>
    match Machine.Signal.ofName? (String.ofList name) with
    | some signal => send signal words
    | none => throw (.failure ("invalid signal number or name: ".toList ++ name))
  | ['-', 'l'] :: text :: _ => do
    write 1 ((← signalNamed text) ++ ['\n'])
    return 0
  | [['-', 'l']] => do
    write 1 (Machine.Signal.names.flatMap fun name => name.toList ++ ['\n'])
    return 0
  | ['-', '-'] :: words => send Machine.Signal.terminate words
  | ('-' :: name) :: words =>
    match Machine.Signal.ofName? (String.ofList name) with
    | some signal => send signal words
    | none => throw (.failure ("Illegal option -".toList ++ name.take 1))
  | words => send Machine.Signal.terminate words
where
  send (signal : Nat) (words : List Octets) : Acting Nat :=
    if words.isEmpty then
      failWith "Usage: kill [-s sigspec | -signum | -sigspec] [pid | job]... or\nkill -l [exitstatus]"
    else sendAll signal words

def wait (arguments : List Octets) : Acting Unit := do
  if arguments.isEmpty then push (.waitFor (← shell).jobs 0 false)
  else
    let numbers ← arguments.mapM fun word => do
      match natural? word with
      | some number => return number
      | none =>
        match word, (← shell).lastBackground with
        | '%' :: _, some number => return number
        | _, _ => throw (.failure ("No such job: ".toList ++ word))
    push (.waitFor numbers 0 true)

/-! ## Output and input -/

def echo (arguments : List Octets) : Acting Nat := do
  write 1 (Utility.Echo.print .builtin arguments)
  return 0

def printf : List Octets → Acting Nat
  | ['-', '-'] :: words => print words
  | ('-' :: c :: _) :: _ => throw (.failure ("Illegal option -".toList ++ [c]))
  | words => print words
where
  print : List Octets → Acting Nat
    | [] => failWith "usage: printf format [arg ...]"
    | format :: arguments => do
      let printed := Utility.Printf.print .builtin format arguments
      printed.complaints.forM fun said => complainOf "printf" said
      write 1 printed.out
      return printed.code

def test (words : List Octets) : Acting Nat := do
  match Utility.Test.holds { tree := ← view, style := .builtin } words with
  | .ok true => return 0
  | .ok false => return 1
  | .error fault => throw (.failure (fault.message .builtin))

def testInBrackets (words : List Octets) : Acting Nat :=
  if words.getLast? = some [']'] then test words.dropLast else failWith "missing ]"

/-- Begins to read a line. -/
def readVariables : List Octets → Acting Unit
  | ['-', 'r'] :: names => into true names
  | names => into false names
where
  into (raw : Bool) (names : List Octets) : Acting Unit := do
    match names.find? fun name => !isName name with
    | some name => throw (.failure (name ++ ": bad variable name".toList))
    | none =>
      if names.isEmpty then throw (.failure "arg count".toList)
      else push (.readLine names raw [])

/-- The fields that a line is split into, at most `limit`, the last of which takes the rest. -/
def lineFields (separators : Octets) : (limit : Nat) → Marked → List Octets
  | 0, _ => []
  | limit + 1, cs =>
    let isSeparator (p : Char × Bool) : Bool := !p.2 && p.1 ∈ separators
    let isBlank (p : Char × Bool) : Bool := isSeparator p && Splitting.isBlankSeparator p.1
    let cs := cs.dropWhile isBlank
    if limit = 0 then
      let kept := (cs.reverse.dropWhile isBlank).reverse
      let inner := kept.takeWhile fun p => !isSeparator p
      match kept.drop inner.length with
      | [_] => [inner.map Prod.fst]
      | _ => [kept.map Prod.fst]
    else
      let field := cs.takeWhile fun p => !isSeparator p
      let rest := (cs.drop field.length).dropWhile isBlank
      let rest := match rest with
        | p :: after => if isSeparator p then after else rest
        | [] => []
      field.map Prod.fst :: lineFields separators limit rest

/-- Gives the fields of a line to variables. -/
def assignFields : List Octets → List Octets → Acting Unit
  | [], _ => pure ()
  | name :: names, fields => do
    assign name (fields.headD [])
    assignFields names fields.tail

/-! ## Running others -/

/-- What follows is said by `speaker`, until that has been read. -/
def speakAs (speaker : Octets) : Acting Unit := do
  push (.speaking (← shell).speaker)
  changeShell fun s => { s with speaker := some speaker }

def evaluate (arguments : List Octets) : Acting Unit := do
  if arguments.all List.isEmpty then changeShell fun s => { s with status := 0 }
  else
    speakAs "eval".toList
    runText ([' '].intercalate arguments)

/-- The paths under which a name without separators is looked for. -/
def searched (name : Octets) : Acting (List Octets) := do
  let directories := (((← shell).value? "PATH".toList).getD []).splitOn ':'
  return directories.map fun d => if d.isEmpty then name else d ++ ['/'] ++ name

/-- Runs the script in a file. -/
def source : List Octets → Acting Unit
  | [] => changeShell fun s => { s with status := 0 }
  | name :: _ => do
    let tree ← view
    let found ←
      if '/' ∈ name then pure (some name)
      else pure ((← searched name).find? fun p => tree.isFile p.toText)
    match found with
    | none => throw (.failure (name ++ ": not found".toList))
    | some path =>
      match tree.readBytes path.toText with
      | .ok bytes =>
        let s ← shell
        speakAs path
        push (.call s.positional [])
        runText (Octets.ofBytes bytes)
      | .error e =>
        throw (.failure ("cannot open ".toList ++ path ++ ": ".toList ++ openFailure false e))

/-- The builtins that only begin something. -/
def beginner? (name : Octets) : Option (List Octets → Acting Unit) :=
  match String.ofList name with
  | "." => some source
  | "eval" => some evaluate
  | "read" => some readVariables
  | "wait" => some wait
  | _ => none

/-! ## Names -/

/-- What the name of a command stands for. -/
inductive Meaning
  | keyword
  | builtin
  | function
  /-- A program under a path. -/
  | program (path : Octets)

/-- What the shell takes a name for; `isBuiltin` tells whether it is built in. -/
def meaning? (isBuiltin : Bool) (name : Octets) : Acting (Option Meaning) := do
  if String.ofList name ∈ keywords then return some .keyword
  else if isSpecialBuiltin name then return some .builtin
  else if ((← shell).functions.lookup name).isSome then return some .function
  else if isBuiltin then return some .builtin
  else
    let tree ← view
    let paths ← if '/' ∈ name then pure [name] else searched name
    let path? := paths.find? fun p => (Machine.programAt tree p.toText).toOption.isSome
    return path?.map .program

/-- Prints how a name is called, if it stands for something. -/
def printMeaning (name : Octets) (meaning? : Option Meaning) : Acting Nat := do
  match meaning? with
  | none => return 127
  | some (.program path) =>
    write 1 (path ++ ['\n'])
    return 0
  | some _ =>
    write 1 (name ++ ['\n'])
    return 0

/-- Says what a name stands for. -/
def explainMeaning (name : Octets) (meaning? : Option Meaning) : Acting Nat := do
  let said := match meaning? with
    | none => ": not found".toList
    | some .keyword => " is a shell keyword".toList
    | some .builtin =>
      if isSpecialBuiltin name then " is a special shell builtin".toList
      else " is a shell builtin".toList
    | some .function => " is a shell function".toList
    | some (.program path) => " is ".toList ++ path
  write 1 (name ++ said ++ ['\n'])
  return if meaning?.isNone then 127 else 0

/-- The builtins that have a status when they return. -/
def builtin? (name : Octets) : Option (List Octets → Acting Nat) :=
  match String.ofList name with
  | ":" | "true" => some fun _ => return 0
  | "false" => some fun _ => return 1
  | "[" => some testInBrackets
  | "break" => some (breakLoops false)
  | "cd" => some changeDirectory
  | "continue" => some (breakLoops true)
  | "echo" => some echo
  | "exit" => some exit
  | "export" => some (declare "export " Variable.exported fun v => { v with exported := true })
  | "kill" => some kill
  | "local" => some makeLocal
  | "printf" => some printf
  | "pwd" => some fun _ => do
      write 1 ((← workingDirectory) ++ ['\n'])
      return 0
  | "readonly" => some (declare "readonly " Variable.readOnly fun v => { v with readOnly := true })
  | "return" => some returnFrom
  | "set" => some setBuiltin
  | "shift" => some shift
  | "test" => some test
  | "trap" => some trap
  | "umask" => some fun words => do
      if words.isEmpty then write 1 "0022\n".toList
      return 0
  | "unset" => some unset
  | _ => none

/-- Whether a name is that of a builtin. -/
def isBuiltin (name : Octets) : Bool :=
  (builtin? name).isSome || (beginner? name).isSome ||
    String.ofList name ∈ ["command", "exec", "type"]

/-- Describes names one after the other. -/
def describe (tell : Octets → Option Meaning → Acting Nat) : List Octets → Acting Nat
  | [] => return 0
  | name :: names => do
    let status ← tell name (← meaning? (isBuiltin name) name)
    let others ← describe tell names
    return if others = 0 then status else others

end LaunchPlan.Shell
