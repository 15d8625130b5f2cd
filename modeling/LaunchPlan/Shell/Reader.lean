import LaunchPlan.Shell.Syntax

/-!
# Reading scripts

A script is read line by line: `readLine` takes the commands up to the end of the
line they end on. Limits on recursion are passed down; they are taken from the
length of the script, of which every level reads at least one character.
-/

namespace LaunchPlan.Shell

/-- Why a script cannot be read. -/
inductive Fault
  | unexpected (token : String) (expected : Option String)
  | unterminatedQuote
  | unterminatedBackquote
  | missing (token : String)
  | badFunctionName
  | badLoopVariable
  deriving DecidableEq, Repr

def Fault.message : Fault → String
  | unexpected token none => token ++ " unexpected"
  | unexpected token (some other) => token ++ " unexpected (expecting " ++ other ++ ")"
  | unterminatedQuote => "Unterminated quoted string"
  | unterminatedBackquote => "EOF in backquote substitution"
  | missing token => "Missing '" ++ token ++ "'"
  | badFunctionName => "Bad function name"
  | badLoopVariable => "Bad for loop variable"

/-- The characters that are left, and the number of the line reached. Of the lines after this one,
`taken` have been read already. -/
structure Position where
  rest : Octets
  line : Nat := 1
  taken : Nat := 0

abbrev Reading := StateT Position (Except (Fault × Nat))

def fail {α : Type} (fault : Fault) : Reading α := do
  throw (fault, (← get).line)

def rest : Reading Octets := do
  return (← get).rest

/-- Goes on behind the next `n` characters. -/
def skip (n : Nat) : Reading Unit :=
  modify fun p =>
    let lines := ((p.rest.take n).filter (· = '\n')).length
    if lines = 0 then { p with rest := p.rest.drop n }
    else { rest := p.rest.drop n, line := p.line + lines + p.taken }

/-- Whether the text goes on with `word`; it is skipped then. -/
def accept (word : String) : Reading Bool := do
  if word.toList.isPrefixOf (← rest) then
    skip word.length
    return true
  else return false

/-- As `accept`, but not where the text goes on with `longer`. -/
def acceptUnless (longer word : String) : Reading Bool := do
  if longer.toList.isPrefixOf (← rest) then return false else accept word

/-- The characters that end a word. -/
def isMeta (c : Char) : Bool :=
  c ∈ [' ', '\t', '\n', ';', '&', '|', '<', '>', '(', ')']

def isQuoting (c : Char) : Bool :=
  c ∈ ['\'', '"', '\\', '$', '\x60']

/-- Parameters with a name of one character that is no letter. -/
def isSpecial (c : Char) : Bool :=
  c ∈ ['?', '$', '!', '#', '@', '*', '-']

/-- What follows blanks, joined lines and a comment. -/
def afterBlanks : Octets → Octets
  | ' ' :: cs | '\t' :: cs | '\\' :: '\n' :: cs => afterBlanks cs
  | '#' :: cs => cs.dropWhile (· ≠ '\n')
  | cs => cs

def skipBlanks : Reading Unit := do
  let cs ← rest
  skip (cs.length - (afterBlanks cs).length)

/-- What follows blanks, comments and line ends. -/
def afterLines : (limit : Nat) → Octets → Octets
  | 0, cs => cs
  | limit + 1, cs =>
    match afterBlanks cs with
    | '\n' :: cs => afterLines limit cs
    | cs => cs

def skipLines : Reading Unit := do
  let cs ← rest
  skip (cs.length - (afterLines cs.length cs).length)

/-- The word that the text goes on with, if no character of it quotes or expands. -/
def plainWord? (cs : Octets) : Option Octets :=
  let word := cs.takeWhile fun c => !isMeta c && !isQuoting c
  match cs.drop word.length with
  | c :: _ => if isMeta c && !word.isEmpty then some word else none
  | [] => if word.isEmpty then none else some word

/-- The words that end a list of commands. -/
def closers : List String :=
  ["then", "else", "elif", "fi", "do", "done", "esac", "in", "\x7d"]

def keywords : List String :=
  ["if", "while", "until", "for", "case", "\x7b", "!"] ++ closers

/-- The keyword that the text goes on with. -/
def keyword? (cs : Octets) : Option String :=
  (plainWord? cs).bind fun word =>
    if String.ofList word ∈ keywords then some (String.ofList word) else none

/-- How a fault names what the text goes on with. -/
def tokenName (cs : Octets) : String :=
  let quoted (s : String) := "\"" ++ s ++ "\""
  match cs with
  | [] => "end of file"
  | '\n' :: _ => "newline"
  | ';' :: ';' :: _ => quoted ";;"
  | '&' :: '&' :: _ => quoted "&&"
  | '|' :: '|' :: _ => quoted "||"
  | '<' :: _ | '>' :: _ => "redirection"
  | c :: _ =>
    if isMeta c then quoted (String.singleton c)
    else
      match keyword? cs with
      | some word => quoted word
      | none => "word"

def unexpected {α : Type} (expected : Option String) : Reading α := do
  fail (.unexpected (tokenName (← rest)) (expected.map fun s => "\"" ++ s ++ "\""))

def wordExpected {α : Type} : Reading α := do
  fail (.unexpected (tokenName (← rest)) (some "word"))

/-- Adds a character to the parts that follow it. -/
def consText (c : Char) (quoted : Bool) : List Part → List Part
  | .text octets q :: parts =>
    if q = quoted then .text (c :: octets) q :: parts else .text [c] quoted :: .text octets q :: parts
  | parts => .text [c] quoted :: parts

/-- Where a part of a word stands. -/
inductive Place
  | bare
  | double
  /-- Between the braces of a parameter. -/
  | brace (quoted : Bool)
  /-- In lines that are read as a whole. -/
  | document
  /-- In an arithmetic expression with so many open parentheses. -/
  | sum (depth : Nat) (quoted : Bool)

namespace Place

/-- Whether text that stands here is quoted. -/
def isQuoted : Place → Bool
  | double | brace true | document | sum .. => true
  | _ => false

/-- Whether a backslash quotes `c` here. -/
def escapes (place : Place) (c : Char) : Bool :=
  match place with
  | bare | brace false => true
  | double | sum .. => c ∈ ['$', '\x60', '"', '\\', '\n']
  | document => c ∈ ['$', '\x60', '\\', '\n']
  | brace true => c ∈ ['$', '\x60', '"', '\\', '\n', '\x7d']

end Place

/-- The script between backquotes, without the backslashes that quote in it, and what follows. -/
def backquoted (inDouble : Bool) : Octets → Option (Octets × Octets)
  | [] => none
  | '\x60' :: cs => some ([], cs)
  | '\\' :: c :: cs =>
    (backquoted inDouble cs).map fun (body, rest) =>
      if c ∈ ['$', '\x60', '\\'] || (inDouble && c = '"') then (c :: body, rest)
      else ('\\' :: c :: body, rest)
  | c :: cs => (backquoted inDouble cs).map fun (body, rest) => (c :: body, rest)

/-- The name of a parameter at the beginning of a text, and how long it is. -/
def parameterName (braced : Bool) (cs : Octets) : Option Octets :=
  match cs with
  | [] => none
  | c :: _ =>
    if isNameStart c then some (cs.takeWhile isNameChar)
    else if c.isDigit then some (if braced then cs.takeWhile Char.isDigit else [c])
    else if isSpecial c then some [c]
    else none

/-- The descriptor, kind and length of the redirection that a text begins with. -/
def redirection? (cs : Octets) : Option (Nat × RedirectionKind × Nat) :=
  let digit? := cs.head?.filter Char.isDigit
  let at' (standard : Nat) (kind : RedirectionKind) (length : Nat) :=
    match digit? with
    | some d => some (d.toNat - 48, kind, length + 1)
    | none => some (standard, kind, length)
  match if digit?.isSome then cs.tail else cs with
  | '<' :: '<' :: '-' :: _ => at' 0 .content 3
  | '<' :: '<' :: _ => at' 0 .content 2
  | '<' :: '&' :: _ => at' 0 .duplicate 2
  | '<' :: '>' :: _ => at' 0 .readWrite 2
  | '<' :: _ => at' 0 .read 1
  | '>' :: '&' :: _ => at' 1 .duplicate 2
  | '>' :: '>' :: _ => at' 1 .append 2
  | '>' :: '|' :: _ => at' 1 .overwrite 2
  | '>' :: _ => at' 1 .write 1
  | _ => none

/-- The name that a text assigns to. -/
def assignment? (cs : Octets) : Option Octets :=
  match cs with
  | [] => none
  | c :: _ =>
    let name := cs.takeWhile isNameChar
    if isNameStart c && (cs.drop name.length).head? = some '=' then some name else none

/-- Takes lines, from the next one on, up to one that is `last`. With `strip`, tabs in front of a
line do not count. -/
def takeLines (strip : Bool) (last : Octets) : Reading Octets := do
  let p ← get
  let here := p.rest.takeWhile (· ≠ '\n')
  match p.rest.drop here.length with
  | [] => return []
  | _ :: after =>
    let lines := after.splitOn '\n'
    let plain (line : Octets) : Octets := if strip then line.dropWhile (· = '\t') else line
    let body := lines.takeWhile fun line => plain line ≠ last
    set { p with
      rest := here ++ '\n' :: ['\n'].intercalate (lines.drop (body.length + 1))
      taken := p.taken + body.length + 1 }
    let text := ['\n'].intercalate (body.map plain)
    return if body.length < lines.length && !body.isEmpty then text ++ ['\n'] else text

/-- One command of those that have no more than one, else their sequence. -/
def Command.ofList : List Command → Command
  | [command] => command
  | commands => .sequence commands

mutual

/-- The parts of a word from here on. -/
def readParts : (limit : Nat) → Place → Reading (List Part)
  | 0, _ => fail .unterminatedQuote
  | limit + 1, place => do
    let quoted := place.isQuoted
    match ← rest, place with
    | [], .bare | [], .document => return []
    | [], .brace _ => fail (.missing "\x7d")
    | [], .sum .. => fail (.missing "))")
    | [], .double => fail .unterminatedQuote
    | '"' :: _, .double => do skip 1; return []
    | '\x7d' :: _, .brace _ => do skip 1; return []
    | ')' :: ')' :: _, .sum 0 _ => do skip 2; return []
    | '\\' :: c :: _, _ =>
      if place.escapes c then do
        skip 2
        let parts ← readParts limit place
        return if c = '\n' then parts else consText c true parts
      else do
        skip 1
        return consText '\\' quoted (← readParts limit place)
    | '$' :: _, _ => do
      skip 1
      match ← readDollar limit quoted with
      | some part => return part :: (← readParts limit place)
      | none => return consText '$' quoted (← readParts limit place)
    | '\x60' :: cs, _ =>
      match backquoted quoted cs with
      | none => fail .unterminatedBackquote
      | some (body, after) => do
        let position ← get
        set { position with rest := body }
        let commands ← readScript limit
        set { position with rest := after }
        return .output commands quoted :: (← readParts limit place)
    | c :: cs, _ =>
      if c = '\'' && !quoted then
        match cs.span (· ≠ '\'') with
        | (_, []) => fail .unterminatedQuote
        | (body, _) => do
          skip (body.length + 2)
          return .text body true :: (← readParts limit place)
      else if c = '"' && !(place matches .sum ..) && !(place matches .document) then do
        skip 1
        let inner ← readParts limit .double
        return .text [] true :: inner ++ (← readParts limit place)
      else if (place matches .bare) && isMeta c then return []
      else do
        skip 1
        let place := match place with
          | .sum depth q => .sum (if c = '(' then depth + 1 else if c = ')' then depth - 1 else depth) q
          | place => place
        return consText c quoted (← readParts limit place)

/-- What follows a dollar sign; none when it stands for itself. -/
def readDollar : (limit : Nat) → (quoted : Bool) → Reading (Option Part)
  | 0, _ => fail .unterminatedQuote
  | limit + 1, quoted => do
    if ← accept "((" then return some (.sum (← readParts limit (.sum 0 quoted)) quoted)
    else if ← accept "(" then
      let body ← readCommands limit
      skipLines
      if ← accept ")" then return some (.output body quoted) else unexpected (some ")")
    else if ← accept "\x7b" then return some (← readBraced limit quoted)
    else
      match parameterName false (← rest) with
      | none => return none
      | some name => do
        skip name.length
        return some (.parameter name .keep quoted)

/-- A parameter after its opening brace. -/
def readBraced : (limit : Nat) → (quoted : Bool) → Reading Part
  | 0, _ => fail .unterminatedQuote
  | limit + 1, quoted => do
    let cs ← rest
    match cs with
    | '#' :: c :: _ =>
      if c ≠ '\x7d' && !(c ∈ ['%', '-', '=', '+', ':']) then
        match parameterName true (cs.drop 1) with
        | none => readFaulty limit quoted
        | some name => do
          skip (1 + name.length)
          if ← accept "\x7d" then return .parameter name .length quoted else readFaulty limit quoted
      else readChanged limit quoted
    | _ => readChanged limit quoted

/-- What stands in braces without being a parameter. -/
def readFaulty : (limit : Nat) → (quoted : Bool) → Reading Part
  | 0, _ => fail .unterminatedQuote
  | limit + 1, quoted => do
    let _ ← readParts limit (.brace quoted)
    return .parameter [] .faulty quoted

/-- A parameter with what is made of its value. -/
def readChanged : (limit : Nat) → (quoted : Bool) → Reading Part
  | 0, _ => fail .unterminatedQuote
  | limit + 1, quoted => do
    match parameterName true (← rest) with
    | none => readFaulty limit quoted
    | some name => do
      skip name.length
      let word (change : List Part → Change) : Reading Part := do
        return .parameter name (change (← readParts limit (.brace quoted))) quoted
      let pattern (change : List Part → Change) : Reading Part := do
        return .parameter name (change (← readParts limit (.brace false))) quoted
      if ← accept "\x7d" then return .parameter name .keep quoted
      else if ← accept ":-" then word (.default true)
      else if ← accept "-" then word (.default false)
      else if ← accept ":=" then word (.assign true)
      else if ← accept "=" then word (.assign false)
      else if ← accept ":?" then word (.complain true)
      else if ← accept "?" then word (.complain false)
      else if ← accept ":+" then word (.alternative true)
      else if ← accept "+" then word (.alternative false)
      else if ← accept "%%" then pattern (.trim true true)
      else if ← accept "%" then pattern (.trim true false)
      else if ← accept "##" then pattern (.trim false true)
      else if ← accept "#" then pattern (.trim false false)
      else readFaulty limit quoted

/-- All commands of a text. -/
def readScript : (limit : Nat) → Reading (List Command)
  | 0 => fail .unterminatedQuote
  | limit + 1 => do
    let commands ← readCommands limit
    if (← rest).isEmpty then return commands else unexpected none

/-- Commands up to a word or sign that ends them. -/
def readCommands : (limit : Nat) → Reading (List Command)
  | 0 => fail .unterminatedQuote
  | limit + 1 => do
    skipLines
    let cs ← rest
    if cs.isEmpty || cs.head? = some ')' || [';', ';'].isPrefixOf cs ||
        ((keyword? cs).any (· ∈ closers)) then return []
    else
      let command ← readEither limit
      skipBlanks
      if [';', ';'].isPrefixOf (← rest) then return [command]
      else if ← accept ";" then return command :: (← readCommands limit)
      else if ← acceptUnless "&&" "&" then
        return .background command :: (← readCommands limit)
      else if (← rest).head? = some '\n' then return command :: (← readCommands limit)
      else return [command]

/-- At least one command, as one, before the word `closer`. -/
def readBody : (limit : Nat) → (closer : String) → Reading Command
  | 0, _ => fail .unterminatedQuote
  | limit + 1, closer => do
    match ← readCommands limit with
    | [] => unexpected (if (← rest).isEmpty then some closer else none)
    | commands => return .ofList commands

/-- Pipelines joined by `&&` and by `||`. -/
def readEither : (limit : Nat) → Reading Command
  | 0 => fail .unterminatedQuote
  | limit + 1 => do readFurther limit (← readPipeline limit)

/-- What is joined to a command. -/
def readFurther : (limit : Nat) → Command → Reading Command
  | 0, _ => fail .unterminatedQuote
  | limit + 1, first => do
    skipBlanks
    if ← accept "&&" then
      skipLines
      readFurther limit (.either true first (← readPipeline limit))
    else if ← accept "||" then
      skipLines
      readFurther limit (.either false first (← readPipeline limit))
    else return first

def readPipeline : (limit : Nat) → Reading Command
  | 0 => fail .unterminatedQuote
  | limit + 1 => do
    skipBlanks
    if keyword? (← rest) = some "!" then
      skip 1
      return .negation (← readPipeline limit)
    else
      match ← readPiped limit with
      | [command] => return command
      | commands => return .pipeline commands

def readPiped : (limit : Nat) → Reading (List Command)
  | 0 => fail .unterminatedQuote
  | limit + 1 => do
    let command ← readCommand limit
    skipBlanks
    if ← acceptUnless "||" "|" then
      skipLines
      return command :: (← readPiped limit)
    else return [command]

/-- One command. -/
def readCommand : (limit : Nat) → Reading Command
  | 0 => fail .unterminatedQuote
  | limit + 1 => do
    skipBlanks
    let cs ← rest
    if cs.head? = some '(' then
      skip 1
      let body ← readBody limit ")"
      skipLines
      if ← accept ")" then readRedirected limit (.subshell body) else unexpected (some ")")
    else
      match keyword? cs with
      | some word =>
        if word ∈ closers then unexpected none
        else do
          skip word.length
          readRedirected limit (← readCompound limit word)
      | none => do
        match ← readSimple limit [] [] [] with
        | ([], [], []) => unexpected none
        | (assignments, words, redirections) =>
          match words with
          | [[.text name false]] =>
            if assignments.isEmpty && redirections.isEmpty && (← rest).head? = some '(' then do
              skip 1
              skipBlanks
              if !(← accept ")") then unexpected (some ")")
              if !isName name || isSpecialBuiltin name then fail .badFunctionName
              skipLines
              return .define name (← readCommand limit)
            else return .simple (← get).line assignments words redirections
          | _ => return .simple (← get).line assignments words redirections

/-- The redirections that follow a command. -/
def readRedirected : (limit : Nat) → Command → Reading Command
  | 0, _ => fail .unterminatedQuote
  | limit + 1, command => do
    match ← readRedirections limit with
    | [] => return command
    | redirections => return .redirected command redirections

def readRedirections : (limit : Nat) → Reading (List Redirection)
  | 0 => fail .unterminatedQuote
  | limit + 1 => do
    skipBlanks
    match redirection? (← rest) with
    | none => return []
    | some (descriptor, kind, length) => do
      let redirection ← readTarget limit descriptor kind length
      return redirection :: (← readRedirections limit)

/-- A redirection whose sign has so many characters. -/
def readTarget : (limit : Nat) → Nat → RedirectionKind → Nat → Reading Redirection
  | 0, _, _, _ => fail .unterminatedQuote
  | limit + 1, descriptor, kind, length => do
    let strip := ((← rest).take length).getLast? = some '-'
    skip length
    skipBlanks
    if kind = .content then readDocument limit descriptor strip
    else
      match ← readParts limit .bare with
      | [] => unexpected none
      | target => return .mk descriptor kind target

/-- The lines that a descriptor reads, after the sign. The word that ends them follows; if it is
quoted at all, nothing is expanded in the lines. -/
def readDocument : (limit : Nat) → Nat → (strip : Bool) → Reading Redirection
  | 0, _, _ => fail .unterminatedQuote
  | limit + 1, descriptor, strip => do
    match ← readParts limit .bare with
    | [] => unexpected none
    | [.text last false] => do
      let lines ← takeLines strip last
      let position ← get
      set { position with rest := lines }
      let parts ← readParts limit .document
      set position
      return .mk descriptor .content parts
    | last => do
      let text := last.flatMap fun part =>
        match part with
        | .text octets _ => octets
        | _ => []
      return .mk descriptor .content [.text (← takeLines strip text) true]

/-- The assignments, words and redirections of a simple command, after those read before. -/
def readSimple : (limit : Nat) → List (Octets × List Part) → List (List Part) → List Redirection →
    Reading (List (Octets × List Part) × List (List Part) × List Redirection)
  | 0, _, _, _ => fail .unterminatedQuote
  | limit + 1, assignments, words, redirections => do
    skipBlanks
    let cs ← rest
    match redirection? cs with
    | some (descriptor, kind, length) => do
      let redirection ← readTarget limit descriptor kind length
      readSimple limit assignments words (redirections ++ [redirection])
    | none =>
      match if words.isEmpty then assignment? cs else none with
      | some name => do
        skip (name.length + 1)
        let value ← readParts limit .bare
        readSimple limit (assignments ++ [(name, value)]) words redirections
      | none =>
        match ← readParts limit .bare with
        | [] => return (assignments, words, redirections)
        | word => readSimple limit assignments (words ++ [word]) redirections

/-- The words up to the end of the line. -/
def readWords : (limit : Nat) → Reading (List (List Part))
  | 0 => fail .unterminatedQuote
  | limit + 1 => do
    skipBlanks
    match ← readParts limit .bare with
    | [] => return []
    | word => return word :: (← readWords limit)

/-- Takes the keyword `word`. -/
def readKeyword : (limit : Nat) → (word : String) → Reading Unit
  | 0, _ => fail .unterminatedQuote
  | _ + 1, word => do
    skipLines
    if keyword? (← rest) = some word then skip word.length else unexpected (some word)

/-- What follows the keyword of a compound command. -/
def readCompound : (limit : Nat) → (word : String) → Reading Command
  | 0, _ => fail .unterminatedQuote
  | limit + 1, word => do
    match word with
    | "if" => readBranch limit
    | "while" | "until" => do
      let condition ← readBody limit "do"
      readKeyword limit "do"
      let body ← readBody limit "done"
      readKeyword limit "done"
      return .loop (word = "while") condition body
    | "for" => readEach limit
    | "case" => do
      skipBlanks
      let subject ← readParts limit .bare
      if subject.isEmpty then wordExpected
      skipLines
      if (plainWord? (← rest)) = some ['i', 'n'] then skip 2 else unexpected (some "in")
      return .choice subject (← readArms limit)
    | _ => do
      let body ← readBody limit "\x7d"
      readKeyword limit "\x7d"
      return body

/-- What follows `if` or `elif`. -/
def readBranch : (limit : Nat) → Reading Command
  | 0 => fail .unterminatedQuote
  | limit + 1 => do
    let condition ← readBody limit "then"
    readKeyword limit "then"
    let body ← readBody limit "fi"
    skipLines
    match keyword? (← rest) with
    | some "elif" => do
      skip 4
      return .branch condition body (some (← readBranch limit))
    | some "else" => do
      skip 4
      let otherwise ← readBody limit "fi"
      readKeyword limit "fi"
      return .branch condition body (some otherwise)
    | _ => do
      readKeyword limit "fi"
      return .branch condition body none

/-- What follows `for`. -/
def readEach : (limit : Nat) → Reading Command
  | 0 => fail .unterminatedQuote
  | limit + 1 => do
    skipBlanks
    match (plainWord? (← rest)).filter isName with
    | none => fail .badLoopVariable
    | some name => do
      skip name.length
      skipLines
      let words ←
        if plainWord? (← rest) = some ['i', 'n'] then do
          skip 2
          let words ← readWords limit
          skipBlanks
          let ended ← accept ";"
          if !ended && (← rest).head? ≠ some '\n' then unexpected none
          pure (some words)
        else do
          let _ ← accept ";"
          pure none
      readKeyword limit "do"
      let body ← readBody limit "done"
      readKeyword limit "done"
      return .each name words body

/-- The arms of a choice, and the keyword that ends it. -/
def readArms : (limit : Nat) → Reading (List (List (List Part) × Command))
  | 0 => fail .unterminatedQuote
  | limit + 1 => do
    skipLines
    if keyword? (← rest) = some "esac" then
      skip 4
      return []
    else
      let _ ← accept "("
      let patterns ← readPatterns limit
      if !(← accept ")") then unexpected (some ")")
      let body ← readCommands limit
      skipLines
      if ← accept ";;" then return (patterns, .ofList body) :: (← readArms limit)
      else if keyword? (← rest) = some "esac" then
        skip 4
        return [(patterns, .ofList body)]
      else unexpected (some ";;")

/-- The patterns of an arm. -/
def readPatterns : (limit : Nat) → Reading (List (List Part))
  | 0 => fail .unterminatedQuote
  | limit + 1 => do
    skipBlanks
    match ← readParts limit .bare with
    | [] => do
      skip 1
      skipBlanks
      unexpected (some ")")
    | pattern => do
      skipBlanks
      if ← accept "|" then return pattern :: (← readPatterns limit) else return [pattern]

end

/-- The commands that are separated by `;` and `&` up to the end of the line. -/
def readLineCommands : (limit : Nat) → Reading (List Command)
  | 0 => fail .unterminatedQuote
  | limit + 1 => do
    skipBlanks
    let cs ← rest
    if cs.isEmpty || cs.head? = some '\n' then return []
    else
      let command ← readEither (16 * cs.length + 16)
      skipBlanks
      if ← acceptUnless ";;" ";" then return command :: (← readLineCommands limit)
      else if ← acceptUnless "&&" "&" then
        return .background command :: (← readLineCommands limit)
      else if (← rest).isEmpty || (← rest).head? = some '\n' then return [command]
      else unexpected none

/-- The next commands of a script, and whether there is nothing after them; none at its end. -/
def readLine : Reading (Option (Command × Bool)) := do
  skipLines
  let cs ← rest
  if cs.isEmpty then return none
  else
    let commands ← readLineCommands cs.length
    return some (.ofList commands, (← rest).isEmpty)

end LaunchPlan.Shell
