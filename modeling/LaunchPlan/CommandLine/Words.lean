import LaunchPlan.Error
import LaunchPlan.Substitution.Words

/-!
# Words of a command line

A command line is split at blanks, tabs and line ends, following the quoting
rules of a POSIX shell, without any expansion. Single quotes keep everything;
double quotes keep everything but a backslash before one of four characters; a
backslash keeps the next character; `#` at the start of a word begins a comment.
-/

namespace LaunchPlan.CommandLine

/-- Where the splitter stands. -/
inductive Place
  | between
  /-- After a backslash that may open a word. -/
  | betweenEscaped
  | bare
  | bareEscaped
  | single
  | double
  | doubleEscaped
  | comment
  deriving DecidableEq, Repr

def isSeparator (c : Char) : Bool :=
  c = ' ' || c = '\t' || c = '\n'

/-- The characters that a backslash keeps inside double quotes. -/
def isKeptInDouble (c : Char) : Bool :=
  c = '$' || c = '\x60' || c = '"' || c = '\\'

/-- What one character does: the place after it, the text it adds to the open word, and whether it
ends that word. -/
structure Step where
  place : Place
  text : List Char := []
  ends : Bool := false

def step : Place → Char → Step
  | .between, c =>
    if c = '\'' then ⟨.single, [], false⟩
    else if c = '"' then ⟨.double, [], false⟩
    else if c = '\\' then ⟨.betweenEscaped, [], false⟩
    else if isSeparator c then ⟨.between, [], false⟩
    else if c = '#' then ⟨.comment, [], false⟩
    else ⟨.bare, [c], false⟩
  | .betweenEscaped, c => if c = '\n' then ⟨.between, [], false⟩ else ⟨.bare, [c], false⟩
  | .bare, c =>
    if c = '\'' then ⟨.single, [], false⟩
    else if c = '"' then ⟨.double, [], false⟩
    else if c = '\\' then ⟨.bareEscaped, [], false⟩
    else if isSeparator c then ⟨.between, [], true⟩
    else ⟨.bare, [c], false⟩
  | .bareEscaped, c => ⟨.bare, if c = '\n' then [] else [c], false⟩
  | .single, c => if c = '\'' then ⟨.bare, [], false⟩ else ⟨.single, [c], false⟩
  | .double, c =>
    if c = '"' then ⟨.bare, [], false⟩
    else if c = '\\' then ⟨.doubleEscaped, [], false⟩
    else ⟨.double, [c], false⟩
  | .doubleEscaped, c =>
    ⟨.double, if c = '\n' then [] else if isKeptInDouble c then [c] else ['\\', c], false⟩
  | .comment, c => ⟨if c = '\n' then .between else .comment, [], false⟩

/-- The words that the end of the line leaves: none where a quote is open. -/
def atEnd : Place → Option (List (List Char))
  | .between | .comment => some []
  | .bare => some [[]]
  | .betweenEscaped | .bareEscaped => some [['\\']]
  | .single | .double | .doubleEscaped => none

/-- The words of the line that is left. In a word, the first of them goes on with it. -/
def wordsFrom : Place → List Char → Option (List (List Char))
  | place, [] => atEnd place
  | place, c :: cs =>
    let s := step place c
    if s.ends then (wordsFrom s.place cs).map ([] :: ·)
    else (wordsFrom s.place cs).map fun words => s.text.foldr Substitution.consWord words

/-- The words of a command line. -/
def words (line : String) : Except SubstitutionError (List String) :=
  match wordsFrom .between line.toList with
  | some ws => .ok (ws.map String.ofList)
  | none => .error (.invalidCommandLine (.unclosedQuote line))

end LaunchPlan.CommandLine
