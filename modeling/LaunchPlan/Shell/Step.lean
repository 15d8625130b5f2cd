import LaunchPlan.Shell.Builtin

/-!
# Steps of a shell

Each step deals with the topmost frame, or with a signal that has arrived. The
last command of a shell takes the place of the shell itself, where it is a
program; all other programs are children.
-/

namespace LaunchPlan.Shell

open Machine (Activity Handle Job)

/-! ## Programs -/

/-- How long it takes from starting a program until it runs. -/
def loading (name : String) (words : List Octets) : Acting Activity := do
  let scene ← get
  return .loading (scene.machine.now + Machine.loadingTime) name words scene.shell.environment

/-- What is said of a program that cannot be started, and the status. -/
def notStarted (name : Octets) : IoError → Octets × Nat
  | .notFound | .notADirectory => (name ++ ": not found".toList, 127)
  | .os number => (name ++ ": ".toList ++ (IoError.name number).toList, 126)
  | other => (name ++ ": ".toList ++ other.message.toList, 126)

/-- The program that a command names. -/
def program (name : Octets) : Acting (Except IoError String) := do
  let path := ((← shell).value? "PATH".toList).getD []
  return Machine.findProgram (← view) (some path.toText) name.toText

/-- Runs a program, in place of the shell if nothing follows. -/
def runProgram (words : List Octets) (invocation : Invocation) : Acting Unit := do
  match ← program (words.headD []) with
  | .error e =>
    let (said, status) := notStarted (words.headD []) e
    complain said
    leave (.invoke invocation)
    settle status
  | .ok name =>
    let activity ← loading name words
    if ← isLast then throw (.becomes activity)
    else
      let child ← startChild fun j => { j with activity }
      push (.restore invocation.saved invocation.shadowed)
      push (.await [child] child)

/-- Puts a program in the place of the shell; without words, only the redirections are made. -/
def exec (words : List Octets) (invocation : Invocation) : Acting Unit := do
  if words.isEmpty then
    forget invocation.saved
    settle 0
  else
    match ← program (words.headD []) with
    | .ok name => throw (.becomes (← loading name words))
    | .error e =>
      let (said, status) := notStarted (words.headD []) e
      complain ("exec: ".toList ++ said)
      throw (.ends status)

/-! ## Simple commands -/

/-- Runs what is built in under a name; its failure ends the shell if it is `special`. -/
def runBuiltin (special : Bool) (name : Octets) (run : Acting Unit) : Acting Unit := do
  try run
  catch
    | .failure said =>
      complainAs (some name) (← shell).line said
      if special then throw (.ends 2) else settle 2
    | .unwritten =>
      complainAs (some name) (← shell).line (name ++ ": I/O error".toList)
      settle 1
    | other => throw other

/-- Notes what is to be put right after a builtin. -/
def pushRestore (saved : List (Nat × Option Handle)) (shadowed : List (Octets × Option Variable)) :
    Acting Unit := do
  if !saved.isEmpty || !shadowed.isEmpty then push (.restore saved shadowed)

/-- Calls a function. -/
def callFunction (body : Command) (arguments : List Octets) (invocation : Invocation) :
    Acting Unit := do
  push (.restore invocation.saved invocation.shadowed)
  push (.call (← shell).positional [])
  changeShell fun s => { s with positional := arguments }
  push (.command body)

/-- Runs a command by its words; functions do not count if `direct`. -/
def runWords (direct : Bool) (words : List Octets) (invocation : Invocation) : Acting Unit := do
  match words with
  | [] => do
    leave (.invoke invocation)
    settle ((← shell).outputStatus.getD 0)
  | name :: arguments =>
    let special := isSpecialBuiltin name && !direct
    let shadowed := if special then [] else invocation.shadowed
    let s ← shell
    let function? := if special || direct then none else s.functions.lookup name
    match function?, beginner? name, builtin? name with
    | some body, _, _ => callFunction body arguments invocation
    | none, some begins, _ => do
      pushRestore invocation.saved shadowed
      runBuiltin special name (begins arguments)
    | none, none, some run => do
      pushRestore invocation.saved shadowed
      runBuiltin special name (do settle (← run arguments))
    | none, none, none =>
      if name = "exec".toList then exec arguments invocation
      else if name = "type".toList then
        pushRestore invocation.saved shadowed
        runBuiltin special name (do settle (← describe explainMeaning arguments))
      else runProgram words invocation

/-- Runs `command` with these arguments. -/
def runCommand (arguments : List Octets) (invocation : Invocation) : Acting Unit := do
  let run (builtin : Acting Nat) : Acting Unit := do
    pushRestore invocation.saved invocation.shadowed
    runBuiltin false "command".toList (do settle (← builtin))
  match arguments with
  | ['-', 'v'] :: names => run (describe printMeaning (names.take 1))
  | ['-', 'V'] :: names => run (describe explainMeaning (names.take 1))
  | ['-', 'p'] :: words | ['-', '-'] :: words => runWords true words invocation
  | ('-' :: c :: _) :: _ => run (throw (.failure ("Illegal option -".toList ++ [c])))
  | words => runWords true words invocation

/-- Prints a command before it runs, if that is asked for. -/
def trace (invocation : Invocation) : Acting Unit := do
  let s ← shell
  if s.isOn 'x' then
    let assigned := invocation.assigned.map fun (name, value) => name ++ '=' :: value
    let text := (s.value? "PS4".toList).getD [] ++ [' '].intercalate (assigned ++ invocation.fields)
    let saved := invocation.saved.reverse.lookup 2
    match saved with
    | none => report (text ++ ['\n'])
    | some old =>
      let now := (← machine).handle? (← pid) 2
      changeJob fun j => { j with handles := j.handles.set 2 old }
      report (text ++ ['\n'])
      changeJob fun j => { j with handles := j.handles.set 2 now }

/-- Runs a command whose words, redirections and assignments are ready. -/
def runInvocation (invocation : Invocation) : Acting Unit := do
  changeShell fun s => { s with line := invocation.line }
  trace invocation
  match invocation.fields with
  | name :: arguments =>
    if name = "command".toList && ((← shell).functions.lookup name).isNone then
      runCommand arguments invocation
    else runWords false invocation.fields invocation
  | [] => runWords false [] invocation

/-- A word that looks like an assignment, as an argument of a builtin that declares variables. -/
def isAssignmentWord (fields : List Octets) (word : Word) : Bool :=
  (fields.head?.any isDeclaring) &&
    match word with
    | .text octets false :: _ => (assignment? octets).isSome
    | _ => false

/-- Goes on with a command: its words, its redirections, its assignments, and the command itself. -/
def invoke (invocation : Invocation) : Acting Unit := do
  match invocation.words, invocation.redirections, invocation.assignments with
  | word :: words, _, _ =>
    push (.expand (.ofWord word) (.field { invocation with
      words, declaring := isAssignmentWord invocation.fields word }))
  | [], .mk descriptor kind word :: redirections, _ =>
    push (.expand (.ofWord word) (.target { invocation with redirections } descriptor kind))
  | [], [], (name, word) :: assignments =>
    push (.expand (.ofWord word) (.value { invocation with assignments } name))
  | [], [], [] =>
    match invocation.body with
    | some body => do
      push (.restore invocation.saved [])
      push (.command body)
    | none => runInvocation invocation

/-- A redirection is made, or the command is given up. -/
def invokeRedirected (invocation : Invocation) (descriptor : Nat) (kind : RedirectionKind)
    (target : Octets) : Acting Unit := do
  match ← redirect descriptor kind target with
  | .ok old => push (.invoke { invocation with saved := (descriptor, old) :: invocation.saved })
  | .error said => do
    changeShell fun s => { s with line := if invocation.line = 0 then s.line else invocation.line }
    complain said
    leave (.invoke invocation)
    if invocation.fields.head?.any isSpecialBuiltin then throw (.ends 2) else settle 2

/-- A variable is assigned for a command, or for the shell if there is none. -/
def invokeAssigned (invocation : Invocation) (name value : Octets) : Acting Unit := do
  let s ← shell
  if s.isReadOnly name then
    complain (name ++ ": is read only".toList)
    throw (.ends 2)
  let invocation := { invocation with assigned := invocation.assigned ++ [(name, value)] }
  if invocation.fields.isEmpty then
    changeShell fun s => s.assign name value
    push (.invoke invocation)
  else
    let old := s.find? name
    let kept := old.any Variable.exported
    let exported := kept || !invocation.fields.head?.any isSpecialBuiltin
    changeShell fun s => s.putVariable { name, value := some value, exported }
    push (.invoke { invocation with shadowed := (name, old) :: invocation.shadowed })

/-! ## Compound commands -/

/-- Begins the next repetition for the words of a loop. -/
def nextItem (name : Octets) (words : List Word) (fields : List Octets) (body : Command) :
    Acting Unit := do
  match words with
  | word :: words => push (.expand (.ofWord word) (.item name words fields body))
  | [] =>
    if fields.isEmpty then changeShell fun s => { s with status := 0 }
    else push (.each name fields body)

/-- Tries the arms of a choice in turn. -/
def tryArms (subject : Octets) : List (List Word × Command) → Acting Unit
  | [] => changeShell fun s => { s with status := 0 }
  | ([], _) :: arms => tryArms subject arms
  | (pattern :: patterns, body) :: arms =>
    push (.expand (.ofWord pattern) (.pattern subject patterns body arms))

/-- Goes on with an expanded word. -/
def reach (goal : Goal) (pieces : List Piece) : Acting Unit := do
  match goal with
  | .field invocation =>
    let fields ←
      if invocation.declaring then pure [Piece.joined pieces]
      else pure ((← shell).fields (← view) pieces)
    push (.invoke { invocation with fields := invocation.fields ++ fields, declaring := false })
  | .target invocation descriptor kind =>
    invokeRedirected invocation descriptor kind (Piece.joined pieces)
  | .value invocation name => invokeAssigned invocation name (Piece.joined pieces)
  | .item name words fields body =>
    let more := (← shell).fields (← view) pieces
    nextItem name words (fields ++ more) body
  | .subject arms => tryArms (Piece.joined pieces) arms
  | .pattern subject patterns body arms =>
    if (Pattern.ofMarked (Piece.marked pieces)).accepts subject then
      changeShell fun s => { s with status := 0 }
      push (.command body)
    else tryArms subject ((patterns, body) :: arms)

/-- A step of expanding a word. -/
def expand (expansion : Expansion) (goal : Goal) : Acting Unit := do
  match (← shell).expandStep expansion with
  | .done pieces => reach goal pieces
  | .more expansion s =>
    changeShell fun _ => s
    push (.expand expansion goal)
  | .failed said => do
    complain said
    throw (.ends 2)
  | .output body quoted expansion => do
    push (.expand expansion goal)
    let (pipe, m) := (← machine).newPipe false
    changeMachine fun _ => m
    let child ← fork false (.ofList body) fun j => { j with handles := j.handles.set 1 (some (.writer pipe)) }
    changeJob fun j => { j with kept := .reader pipe :: j.kept }
    push (.collect pipe child [] quoted)

/-- Takes the output of a script for the expansion below. -/
def collect (pipe child : Nat) (output : Octets) (quoted : Bool) : Acting Unit := do
  let (more, m) := (← machine).drain pipe
  changeMachine fun _ => m
  let output := output ++ more
  let wait : Acting Unit := do
    push (.collect pipe child output quoted)
    if more.isEmpty then throw .idle
  if m.isWritten pipe then wait
  else
    match ← reaped? child with
    | none => wait
    | some status => do
      announce status
      changeJob fun j => { j with kept := j.kept.erase (.reader pipe) }
      let text := (output.reverse.dropWhile (· = '\n')).reverse.filter (· ≠ '\x00')
      changeShell fun s =>
        { s with
          outputStatus := some (statusOf status)
          stack :=
            match s.stack with
            | .expand expansion goal :: rest =>
              .expand (expansion.add [Piece.ofValue quoted text]) goal :: rest
            | stack => stack }

/-- Starts the commands of a pipeline, each reading what the one before it writes. -/
def startPiped (input : Option Handle) : List Command → Acting (List Nat)
  | [] => return []
  | [command] => do
    let child ← fork true command fun j => { j with handles := withInput j.handles }
    return [child]
  | command :: commands => do
    let (pipe, m) := (← machine).newPipe false
    changeMachine fun _ => m
    let child ← fork true command fun j =>
      { j with handles := (withInput j.handles).set 1 (some (.writer pipe)) }
    return child :: (← startPiped (some (.reader pipe)) commands)
where
  withInput (handles : Machine.Handles) : Machine.Handles :=
    match input with
    | some _ => handles.set 0 input
    | none => handles

/-- Begins a command. -/
def begin (command : Command) : Acting Unit := do
  match command with
  | .simple line assignments words redirections =>
    changeShell fun s => { s with outputStatus := none, line }
    push (.invoke { line, words, assignments, redirections })
  | .pipeline commands =>
    let children ← startPiped none commands
    push (.await children (children.getLast?.getD 0))
  | .negation command =>
    push .negate
    push (.command command)
  | .either onSuccess first second =>
    push (.either onSuccess second)
    push (.command first)
  | .sequence commands => commands.reverse.forM fun command => push (.command command)
  | .background command =>
    let quiet := [Machine.Signal.interrupt, Machine.Signal.quit]
    let child ← fork false command fun j =>
      { j with handles := j.handles.set 0 (some .nothing), ignored := quiet ++ j.ignored }
    changeShell fun s => { s with lastBackground := some child, jobs := s.jobs ++ [child], status := 0 }
  | .subshell body =>
    if ← isLast then push (.command body)
    else
      let child ← fork true body id
      push (.await [child] child)
  | .redirected command redirections => push (.invoke { redirections, body := some command })
  | .branch condition body otherwise =>
    push (.branch body otherwise)
    push (.command condition)
  | .loop whileHolds condition body =>
    push (.condition whileHolds condition body 0)
    push (.command condition)
  | .each name words body =>
    match words with
    | some words => nextItem name words [] body
    | none => nextItem name [] (← shell).positional body
  | .choice word arms => push (.expand (.ofWord word) (.subject arms))
  | .define name body =>
    changeShell fun s =>
      { s with
        functions := (name, body) :: s.functions.filter fun (n, _) => n ≠ name
        status := 0 }

/-! ## Waiting -/

/-- Waits for programs in the foreground. -/
def await (children : List Nat) (last : Nat) : Acting Unit := do
  let rec check : List Nat → Acting (List Nat)
    | [] => return []
    | child :: rest => do
      match ← reaped? child with
      | none => return child :: (← check rest)
      | some status => do
        announce status
        if child = last then changeShell fun s => { s with status := statusOf status }
        check rest
  let left ← check children
  if left.isEmpty then settle (← shell).status
  else
    push (.await left last)
    if left.length = children.length then throw .idle

/-- Waits for programs in the background. -/
def waitFor (children : List Nat) (status : Nat) (named : Bool) : Acting Unit := do
  match children with
  | [] => settle status
  | child :: rest =>
    match ← reaped? child with
    | some ended =>
      if named then announce ended
      changeShell fun s => { s with ended := s.ended ++ [(child, statusOf ended)] }
      push (.waitFor rest (if named then statusOf ended else status) named)
    | none =>
      if ((← machine).job? child).any fun j => j.isRunning then
        push (.waitFor children status named)
        throw .idle
      else
        let known := ((← shell).ended.lookup child).getD 127
        push (.waitFor rest (if named then known else status) named)

/-- Reads an octet of a line. -/
def readOctet (names : List Octets) (raw : Bool) (line : Marked) : Acting Unit := do
  let finish (line : Marked) (status : Nat) : Acting Unit := do
    let fields := lineFields (← shell).separators names.length line
    runBuiltin false "read".toList (do assignFields names fields; settle status)
  let m ← machine
  match m.handle? (← pid) 0 with
  | none => finish line 1
  | some handle =>
    match m.read handle 1 with
    | .error _ => finish line 1
    | .ok (.wait, _) =>
      push (.readLine names raw line)
      throw .idle
    | .ok (.atEnd, _) => finish line 1
    | .ok (.data octets, m) =>
      changeMachine fun _ => m
      match octets, line.getLast? with
      | ['\n'], some ('\\', false) =>
        if raw then finish line 0 else push (.readLine names raw line.dropLast)
      | ['\n'], _ => finish line 0
      | [c], some ('\\', false) =>
        push (.readLine names raw
          (if raw then line ++ [(c, false)] else line.dropLast ++ [(c, true)]))
      | _, _ =>
        push (.readLine names raw
          (line ++ (octets.filter (· ≠ '\x00')).map fun c => (c, false)))

/-- Reads the script from the input. -/
def readScriptInput (text : Octets) : Acting Unit := do
  let m ← machine
  match m.handle? (← pid) 0 with
  | none => runText text
  | some handle =>
    match m.read handle 65536 with
    | .error _ | .ok (.atEnd, _) => runText text
    | .ok (.wait, _) =>
      push (.scriptInput text)
      throw .idle
    | .ok (.data octets, m) =>
      changeMachine fun _ => m
      push (.scriptInput (text ++ octets))

/-! ## Frames -/

/-- Runs the next line of a script. -/
def runLine (position : Position) : Acting Unit := do
  match LaunchPlan.Shell.readLine.run position with
  | .error (fault, line) =>
    complainAs (← shell).speaker line ("Syntax error: ".toList ++ fault.message.toList)
    throw (.ends 2)
  | .ok (none, _) => pure ()
  | .ok (some (command, atEnd), position) =>
    if !atEnd then push (.script position)
    push (.command command)

/-- Deals with a frame that has been taken from the stack. -/
def runFrame (frame : Frame) : Acting Unit := do
  match frame with
  | .script position => runLine position
  | .command command => if !(← shell).isOn 'n' then begin command
  | .either onSuccess second =>
    if ((← shell).status = 0) = onSuccess then push (.command second)
  | .negate => changeShell fun s => { s with status := if s.status = 0 then 1 else 0 }
  | .branch body otherwise =>
    if (← shell).status = 0 then push (.command body)
    else
      match otherwise with
      | some command => push (.command command)
      | none => changeShell fun s => { s with status := 0 }
  | .condition whileHolds condition body status =>
    if ((← shell).status = 0) = whileHolds then
      push (.body whileHolds condition body)
      push (.command body)
    else changeShell fun s => { s with status }
  | .body whileHolds condition body =>
    push (.condition whileHolds condition body (← shell).status)
    push (.command condition)
  | .each name values body =>
    match values with
    | [] => pure ()
    | value :: values =>
      changeShell fun s => s.assign name value
      push (.each name values body)
      push (.command body)
  | .call .. | .restore .. | .speaking _ | .trapped _ => leave frame
  | .await children last => await children last
  | .waitFor children status named => waitFor children status named
  | .invoke invocation => invoke invocation
  | .expand expansion goal => expand expansion goal
  | .collect pipe child output quoted => collect pipe child output quoted
  | .scriptInput text => readScriptInput text
  | .readLine names raw line => readOctet names raw line

/-! ## Signals -/

/-- Whether the shell is between two commands. -/
def Frame.isBetween : Frame → Bool
  | .script _ | .command _ | .either .. | .negate | .branch .. | .condition .. | .body ..
  | .each .. | .call .. | .restore .. | .speaking _ | .trapped _ => true
  | _ => false

/-- Runs the action of a trap. -/
def runTrap (signal : Nat) (action : Octets) : Acting Unit := do
  changeJob fun j => { j with arrived := j.arrived.erase signal }
  push (.trapped (← shell).status)
  runText action

/-- Deals with a signal, if one has arrived and its time has come. -/
def heed : Acting Bool := do
  let arrived := (← job?).elim [] Job.arrived
  if arrived.isEmpty then return false
  else
    let s ← shell
    let untrapped := arrived.filter fun n => (s.trap? n).isNone
    match untrapped.find? fun n => !Machine.Signal.isHarmless n with
    | some signal => throw (.killed signal)
    | none =>
      changeJob fun j => { j with arrived := j.arrived.filter fun n => n ∉ untrapped }
      match arrived.findSome? fun n => (s.trap? n).map fun action => (n, action) with
      | none => return false
      | some (signal, action) =>
        match s.stack with
        | .waitFor .. :: rest =>
          changeShell fun s => { s with stack := rest, status := 128 + signal }
          runTrap signal action
          return true
        | frame :: _ =>
          if frame.isBetween then
            runTrap signal action
            return true
          else return false
        | [] =>
          runTrap signal action
          return true

/-- The shell ends, after its last trap. -/
def finish (code : Nat) : Acting Unit := do
  leaveUntil fun _ => false
  match (← shell).trap? 0 with
  | some action =>
    changeShell fun s =>
      { s with
        status := code
        traps := s.traps.filter fun (n, _) => n ≠ 0
        stack := [.script { rest := action }, .trapped code] }
  | none => throw (.ends code)

/-- One step of a shell. -/
def step : Acting Unit := do
  if ← heed then pure ()
  else
    try
      match (← shell).stack with
      | [] => throw (.ends (← shell).status)
      | frame :: rest =>
        changeShell fun s => { s with stack := rest }
        runFrame frame
    catch
      | .ends code => finish code
      | .failure said =>
        complain said
        finish 2
      | other => throw other

/-! ## Starting -/

/-- The words after the options of a shell, and whether the first of them is a script. -/
structure Start where
  script : Bool := false
  options : Octets := []
  words : List Octets := []

def startOf : List Octets → Start
  | [] => {}
  | ['-', '-'] :: words => { words }
  | ('-' :: c :: letters) :: words =>
    let rest := startOf words
    { rest with
      script := rest.script || 'c' ∈ c :: letters
      options := (c :: letters) ++ rest.options }
  | words => { words }

/-- Where programs are looked for if nothing else is said. -/
def standardPath : Octets :=
  "/usr/local/sbin:/usr/local/bin:/usr/sbin:/usr/bin:/sbin:/bin".toList

/-- The variables of a shell in a directory that is started with some variables. -/
def startVariables (tree : Tree) (environment : List (Octets × Octets)) : List Variable :=
  let set (s : State) (p : Octets × Octets) : State :=
    if isName p.1 then s.putVariable { name := p.1, value := some p.2, exported := true } else s
  let directory := Octets.ofText (Path.ofSteps tree.current)
  let known : List Variable := [
    { name := "PATH".toList, value := some standardPath },
    { name := "IFS".toList, value := some [' ', '\t', '\n'] },
    { name := "OPTIND".toList, value := some ['1'] },
    { name := "PS1".toList, value := some ['$', ' '] },
    { name := "PS2".toList, value := some ['>', ' '] },
    { name := "PS4".toList, value := some ['+', ' '] }]
  let s := (environment.filter fun p => p.1 ≠ "IFS".toList).foldl set
    { title := [], mainPid := 0, bindings := known }
  let given := (s.value? "PWD".toList).filter fun p =>
    p.head? = some '/' && (tree.locate p.toText).toOption = some tree.current
  let s := s.putVariable
    { name := "PWD".toList, value := some (given.getD directory), exported := true }
  s.bindings

/-- A shell started with these words, the first being its own name, and these variables; or what it
complains about. -/
def ofWords (tree : Tree) (pid : Nat) (words : List Octets) (environment : List (Octets × Octets)) :
    Except Octets State :=
  let name := words.headD []
  let start := startOf words.tail
  let base : State :=
    { title := name
      mainPid := pid
      bindings := startVariables tree environment
      options := start.options.filter fun c => c ∈ State.optionLetters && c ≠ 's' }
  match start.script, start.words with
  | true, [] => .error (name ++ ": 0: -c requires an argument\n".toList)
  | true, script :: rest =>
    .ok { base with
      title := rest.headD name
      positional := rest.tail
      stack := [.script { rest := script }] }
  | false, [] => .ok { base.switch true 's' with stack := [.scriptInput []] }
  | false, path :: rest =>
    if 's' ∈ start.options then
      .ok { base.switch true 's' with positional := path :: rest, stack := [.scriptInput []] }
    else
      match tree.readBytes path.toText with
      | .ok bytes =>
        .ok { base with
          title := path
          positional := rest
          stack := [.script { rest := Octets.ofBytes bytes }] }
      | .error e =>
        .error (name ++ ": 0: cannot open ".toList ++ path ++ ": ".toList ++ openFailure false e ++
          ['\n'])

end LaunchPlan.Shell
