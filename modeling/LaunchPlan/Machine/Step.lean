import LaunchPlan.Bindings
import LaunchPlan.Shell.Step

/-!
# Steps of a machine

In one step of a machine every program does a step of its own. When none of them
can do anything, time goes on to the next moment at which one can.
-/

namespace LaunchPlan.Machine

/-! ## Programs -/

def line (words : List Octets) : Octets :=
  words.flatten ++ ['\n']

/-- The hint that follows a complaint about arguments. -/
def hint (name : Octets) : Octets :=
  line ["Try '".toList, name, " --help' for more information.".toList]

/-- A program ends with what it has written and its exit code. -/
def conclude (m : Machine) (pid : Nat) (name out err : Octets) (code : Nat) : Machine :=
  let m := match m.write pid 2 err with
    | .ok m => m
    | .error _ => m
  match m.write pid 1 out with
  | .ok m => m.finish pid (.exited code)
  | .error e =>
    if e = brokenPipe && !((m.job? pid).any fun j => Signal.brokenPipe ∈ j.ignored) then
      m.finish pid (.signaled Signal.brokenPipe)
    else
      let reason := match e with
        | .os number => IoError.name number
        | other => other.message
      let m := match m.write pid 2 (line [name, ": write error: ".toList, reason.toList]) with
        | .ok m => m
        | .error _ => m
      m.finish pid (.exited 1)

def printEnvironment (environment : List (Octets × Octets)) (last : Char) (names : List Octets) :
    Octets × Nat :=
  match names with
  | [] => (environment.flatMap fun (n, v) => n ++ '=' :: v ++ [last], 0)
  | names =>
    let values := names.map fun n => environment.lookup n
    (values.flatMap fun v => v.elim [] (· ++ [last]), if values.all Option.isSome then 0 else 1)

/-- How many nanoseconds an argument of `sleep` says. -/
def sleepTime? (text : Octets) : Option Nat :=
  let decimal := Utility.Printf.readDecimal text
  let unit : Option Nat := match decimal.rest with
    | [] | ['s'] => some 1
    | ['m'] => some 60
    | ['h'] => some 3600
    | ['d'] => some 86400
    | _ => none
  if decimal.rest.length = text.length then
    if text = "inf".toList || text = "infinity".toList then some 1000000000000000000 else none
  else if decimal.negative && decimal.digits ≠ 0 then none
  else
    unit.map fun unit =>
      let nanos := decimal.digits * unit * 1000000000
      let up := Nat.pow 10 (min decimal.scale.toNat 30)
      let down := Nat.pow 10 (min (-decimal.scale).toNat 60)
      (nanos * up + down - 1) / down

/-- Makes a file, or sets the time of its last change. -/
def touch (m : Machine) (pid : Nat) (path : Octets) : Except IoError Machine := do
  let tree := m.view pid
  match tree.locate path.toText with
  | .ok location =>
    match tree.node? location with
    | some (.file content _) => return { m with tree := m.tree.put location (.file content m.stamp) }
    | _ => return m
  | .error _ => do
    let location ← tree.target path.toText
    return { m with tree := m.tree.put location (.file .empty m.stamp) }

def reasonOf : IoError → Octets
  | .os number => (IoError.name number).toList
  | other => other.message.toList

/-- Touches files one after the other; what is complained about is collected. -/
def touchAll (m : Machine) (pid : Nat) (name : Octets) : List Octets → Octets × Machine
  | [] => ([], m)
  | path :: paths =>
    match m.touch pid path with
    | .ok m => m.touchAll pid name paths
    | .error e =>
      let (said, m) := m.touchAll pid name paths
      (line [name, ": cannot touch '".toList, path, "': ".toList, reasonOf e] ++ said, m)

def isOption (word : Octets) : Bool :=
  word.head? = some '-' && 1 < word.length

/-- The words that are not options. -/
def operands (words : List Octets) : List Octets :=
  let options := words.takeWhile (· ≠ ['-', '-'])
  options.filter (fun word => !isOption word) ++ (words.drop options.length).tail

/-- What is said of the first option that is unknown. -/
def unknownOption? (name : Octets) (letters : List Char) (long : List String)
    (words : List Octets) : Option Octets :=
  (words.takeWhile (· ≠ ['-', '-'])).findSome? fun word =>
    let said := match word with
      | '-' :: '-' :: _ =>
        if String.ofList word ∈ long then none
        else some ("unrecognized option '".toList ++ word ++ ['\''])
      | '-' :: c :: cs =>
        ((c :: cs).find? fun d => d ∉ letters).map fun d => "invalid option -- '".toList ++ [d, '\'']
      | _ => none
    said.map fun said => line [name, ": ".toList, said] ++ hint name

/-- Tells whether a test holds by its exit code. -/
def runTest (m : Machine) (pid : Nat) (name : Octets) (words : List Octets) : Machine :=
  match Utility.Test.holds { tree := m.view pid, style := .program } words with
  | .ok b => m.conclude pid name [] [] (if b then 0 else 1)
  | .error fault => m.conclude pid name [] (line [name, ": ".toList, fault.message .program]) 2

/-- A loaded program begins to run. -/
def begin (m : Machine) (pid : Nat) (program : String) (words : List Octets)
    (environment : List (Octets × Octets)) : Machine :=
  let name := words.headD []
  let arguments := words.tail
  let become (activity : Activity) : Machine := m.changeJob pid fun j => { j with activity }
  let missing (what : String) : Machine :=
    m.conclude pid name [] (line [name, ": missing ".toList, what.toList] ++ hint name) 1
  let checked (letters : List Char) (long : List String) (code : Nat) (run : Machine) : Machine :=
    match unknownOption? name letters long arguments with
    | some said => m.conclude pid name [] said code
    | none => run
  match program with
  | "true" => m.conclude pid name [] [] 0
  | "false" => m.conclude pid name [] [] 1
  | "echo" => m.conclude pid name (Utility.Echo.print .program arguments) [] 0
  | "printf" =>
    match (if arguments.head? = some ['-', '-'] then arguments.tail else arguments) with
    | [] => missing "operand"
    | format :: arguments =>
      let printed := Utility.Printf.print .program format arguments
      m.conclude pid name printed.out
        (printed.complaints.flatMap fun said => line [name, ": ".toList, said]) printed.code
  | "printenv" =>
    let ended := arguments.any fun word => word = ['-', '0'] || word = "--null".toList
    let (out, code) :=
      printEnvironment environment (if ended then '\x00' else '\n') (operands arguments)
    checked ['0'] ["--null"] 2 (m.conclude pid name out [] code)
  | "test" => m.runTest pid name arguments
  | "[" =>
    if arguments.getLast? = some [']'] then m.runTest pid name arguments.dropLast
    else m.conclude pid name [] (line [name, ": missing ']'".toList]) 2
  | "sleep" =>
    let arguments := if arguments.head? = some ['-', '-'] then arguments.tail else arguments
    if arguments.isEmpty then missing "operand"
    else
      let times := arguments.map fun text => (text, sleepTime? text)
      let wrong := times.filter fun t => t.2.isNone
      if wrong.isEmpty then
        become (.sleeping (m.now + times.foldl (fun n t => n + t.2.getD 0) 0))
      else
        m.conclude pid name []
          (wrong.flatMap (fun t => line [name, ": invalid time interval '".toList, t.1, ['\'']]) ++
            hint name) 1
  | "touch" =>
    let unmade := arguments.any fun word => word = ['-', 'c'] || word = "--no-create".toList
    checked ['a', 'c', 'd', 'f', 'h', 'm', 'r', 't'] ["--no-create"] 1 <|
      match operands arguments with
      | [] => missing "file operand"
      | paths =>
        let paths := if unmade then paths.filter fun p => (m.view pid).exists? p.toText else paths
        let (said, m) := m.touchAll pid name paths
        m.conclude pid name [] said (if said.isEmpty then 0 else 1)
  | "cat" =>
    let paths := operands arguments
    checked ['A', 'b', 'e', 'E', 'n', 's', 't', 'T', 'u', 'v'] [] 1
      (become (.copying name none (if paths.isEmpty then [['-']] else paths) 0))
  | "sh" =>
    match Shell.ofWords (m.view pid) pid words environment with
    | .ok s => become (.shell s)
    | .error said => m.conclude pid name [] said 2
  | _ => m.conclude pid name [] [] 127

/-- A step of copying: the next input is opened, or some of it is copied. -/
def copy (m : Machine) (pid : Nat) (name : Octets) (handle : Option Handle) (paths : List Octets)
    (code : Nat) : Bool × Machine :=
  let next (m : Machine) (handle : Option Handle) (paths : List Octets) (code : Nat) : Machine :=
    m.changeJob pid fun j => { j with activity := .copying name handle paths code }
  let complain (path : Octets) (e : IoError) : Machine :=
    match m.write pid 2 (line [name, ": ".toList, path, ": ".toList, reasonOf e]) with
    | .ok m => m
    | .error _ => m
  match handle, paths with
  | none, [] => (true, m.finish pid (.exited code))
  | none, path :: rest =>
    let opened : Except IoError (Handle × Machine) :=
      if path = ['-'] then
        match m.handle? pid 0 with
        | some handle => .ok (handle, m)
        | none => .error badDescriptor
      else m.openToRead pid path.toText
    match opened with
    | .ok (handle, m) => (true, next m (some handle) (path :: rest) code)
    | .error e => (true, next (complain path e) none rest 1)
  | some handle, paths =>
    match m.read handle 65536 with
    | .ok (.wait, _) => (false, m)
    | .ok (.atEnd, m) => (true, next m none paths.tail code)
    | .error e => (true, next (complain (paths.headD []) e) none paths.tail 1)
    | .ok (.data octets, m) =>
      match m.write pid 1 octets with
      | .ok m => (true, m)
      | .error _ => (true, m.conclude pid name octets [] 1)

/-! ## Steps -/

/-- A step of a shell. -/
def stepShell (m : Machine) (pid : Nat) (s : Shell.State) : Bool × Machine :=
  let keep (activity : Activity) (j : Job) : Job := if j.isRunning then { j with activity } else j
  match Shell.step.run { machine := m, pid, shell := s } with
  | (.ok (), scene) => (true, scene.machine.changeJob pid (keep (.shell scene.shell)))
  | (.error .idle, scene) => (false, scene.machine.changeJob pid (keep (.shell scene.shell)))
  | (.error (.becomes activity), scene) =>
    (true, scene.machine.changeJob pid fun j => keep activity { j with kept := [] })
  | (.error (.killed signal), scene) => (true, scene.machine.finish pid (.signaled signal))
  | (.error (.ends code), scene) => (true, scene.machine.finish pid (.exited code))
  | (.error (.failure _), scene) | (.error .unwritten, scene) =>
    (true, scene.machine.finish pid (.exited 2))

/-- A step of one program, and whether it did anything. -/
def stepJob (m : Machine) (pid : Nat) : Bool × Machine :=
  match m.job? pid with
  | none => (false, m)
  | some j =>
    match j.activity with
    | .ended _ => (false, m)
    | .loading ready program words environment =>
      if ready ≤ m.now then (true, m.begin pid program words environment) else (false, m)
    | .sleeping wake => if wake ≤ m.now then (true, m.finish pid (.exited 0)) else (false, m)
    | .copying name handle paths code => m.copy pid name handle paths code
    | .shell s => m.stepShell pid s

/-- A step of every program, and whether one of them did anything. -/
def stepAll (m : Machine) : List Nat → Bool × Machine
  | [] => (false, m)
  | pid :: pids =>
    let (busy, m) := m.stepJob pid
    let (more, m) := m.stepAll pids
    (busy || more, m)

/-- The moment at which a program goes on by itself. -/
def Job.wake? (j : Job) : Option Nat :=
  match j.activity with
  | .loading ready .. => some ready
  | .sleeping wake => some wake
  | _ => none

/-- A step of the machine, which ends at `limit` at the latest. -/
def step (m : Machine) (limit : Nat) : Machine :=
  let (busy, m) := m.stepAll (m.jobs.map Job.pid)
  let next := if busy then m.now + quantum else (m.jobs.filterMap Job.wake?).foldl min limit
  { m with now := max m.now (min limit next) }

/-- Steps until `done` holds or `limit` is reached. -/
def runUntil (done : Machine → Bool) (limit : Nat) : (steps : Nat) → Machine → Machine
  | 0, m => m
  | steps + 1, m =>
    if done m || limit ≤ m.now then m else runUntil done limit steps (m.step limit)

/-! ## Starting -/

/-- What a program is started with. -/
structure Request where
  program : String
  arguments : List String
  environment : Bindings
  output : Handle
  errors : Handle

/-- Starts a program from outside the machine, in a group of its own. -/
def spawn (m : Machine) (r : Request) : Except IoError (Nat × Machine) := do
  let texts := r.program :: r.arguments ++ r.environment.flatMap fun (n, v) => [n, v]
  if texts.any fun t => '\x00' ∈ t.toList then throw .nulCharacter
  let name ← findProgram m.tree (r.environment.get? "PATH") r.program
  let environment := (r.environment.mergeSort fun a b => a.1 ≤ b.1).map fun (n, v) =>
    (Octets.ofText n, Octets.ofText v)
  return m.start {
    pid := m.nextPid
    parent := 0
    group := m.nextPid
    handles := [(0, .nothing), (1, r.output), (2, r.errors)]
    directory := m.tree.current
    activity := .loading (m.now + loadingTime) name ((r.program :: r.arguments).map Octets.ofText)
      environment }

end LaunchPlan.Machine
