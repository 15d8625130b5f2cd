import LaunchPlan.Text.Blank

/-!
# Paths as text

Joining and taking apart paths written with `/`. `joinSegments` normalises:
the result has no doubled separator and none at the end, except the root itself.
`join` appends one piece and keeps it as written.
-/

namespace LaunchPlan.Path

/-- Runs of separators made single. -/
def collapse : List Char → List Char
  | [] => []
  | [c] => [c]
  | c :: d :: rest =>
    if c = '/' ∧ d = '/' then collapse (d :: rest) else c :: collapse (d :: rest)

/-- A separator at the end removed, unless it is all there is. -/
def dropFinalSeparator : List Char → List Char
  | [] => []
  | [c] => [c]
  | [c, '/'] => [c]
  | c :: d :: rest => c :: dropFinalSeparator (d :: rest)

def joinChars (segments : List (List Char)) : List Char :=
  dropFinalSeparator (collapse (['/'].intercalate (segments.filter fun s => !s.isEmpty)))

/-- The non-empty segments joined by single separators; a leading separator is kept, a trailing
one is dropped. -/
def joinSegments (segments : List String) : String :=
  String.ofList (joinChars (segments.map String.toList))

def isAbsolute (path : String) : Bool :=
  path.toList.head? = some '/'

/-- `piece` seen from the directory `base`: an absolute piece stands for itself. -/
def join (base piece : String) : String :=
  if isAbsolute piece then piece
  else if base.isEmpty || base.toList.getLast? = some '/' then base ++ piece
  else base ++ "/" ++ piece

/-- The pieces between separators, empty ones and `.` included. -/
def pieces (path : String) : List String :=
  (path.toList.splitOn '/').map String.ofList

/-- Whether a piece names a step of the path: the empty piece and `.` name none, except a `.` that
begins a relative path. -/
def namesStep (begins : Bool) (piece : String) : Bool :=
  piece ≠ "" && (piece ≠ "." || begins)

/-- The pieces up to the last one that names a step, that one included. -/
def upToLastStep (begins : Bool) : List String → List String
  | [] => []
  | piece :: rest =>
    match upToLastStep false rest with
    | [] => if namesStep begins piece then [piece] else []
    | kept => piece :: kept

/-- The path without its last step; none for the empty path and the root. -/
def parent (path : String) : Option String :=
  let rooted := isAbsolute path
  let body := if rooted then (pieces path).drop 1 else pieces path
  match upToLastStep (!rooted) body with
  | [] => none
  | steps =>
    some ((if rooted then "/" else "") ++ "/".intercalate (upToLastStep (!rooted) steps.dropLast))

/-- The path for the steps of an absolute location. -/
def ofSteps (steps : List String) : String :=
  "/" ++ "/".intercalate steps

example : parent "/a/b.xml" = some "/a" ∧ parent "b" = some "" ∧ parent "/" = none := by decide

end LaunchPlan.Path
