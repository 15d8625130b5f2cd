import LaunchPlan.Yaml.Cursor

/-!
# Scalars as written

The five ways to write a scalar and the folding of their lines. In plain, quoted
and folded scalars a single line end becomes a blank and further ones are kept.
-/

namespace LaunchPlan.Yaml

inductive Style
  | plain
  | singleQuoted
  | doubleQuoted
  | literal
  | folded
  deriving DecidableEq, Repr

/-- The blanks between two pieces of a scalar: those of the line, the first line end and the
further ones. -/
structure Gap where
  blanks : List Char := []
  firstBreak : List Char := []
  furtherBreaks : List Char := []
  /-- Whether a line end has been passed. -/
  broken : Bool := false

namespace Gap

/-- What the gap stands for. -/
def text (g : Gap) : List Char :=
  if g.broken then
    if g.firstBreak = ['\n'] then
      if g.furtherBreaks.isEmpty then [' '] else g.furtherBreaks
    else g.firstBreak ++ g.furtherBreaks
  else g.blanks

end Gap

/-- The gap that begins here. In a plain scalar a tab may not stand where indentation is due. -/
def readGap (fuel : Nat) (indent : Option Nat) (g : Gap) (k : Cursor) :
    Except Malformed (Gap × Cursor) :=
  match fuel with
  | 0 => .ok (g, k)
  | fuel + 1 =>
    if k.atSpaceOrTab then
      if g.broken && k.isAt '\t' && indent.any (k.column < ·) then .error .indentation
      else
        let blanks := if g.broken then g.blanks else g.blanks ++ k.rest.take 1
        readGap fuel indent { g with blanks } k.skip
    else if k.atBreak then
      let (text, next) := k.takeBreak
      if g.broken then
        readGap fuel indent { g with furtherBreaks := g.furtherBreaks ++ text } next
      else readGap fuel indent { g with blanks := [], firstBreak := text, broken := true } next
    else .ok (g, k)

/-- A run of non-blank characters of a plain scalar, in reverse. -/
def readPlainRun (fuel : Nat) (inFlow : Bool) (done : List Char) (k : Cursor) :
    Except Malformed (List Char × Cursor) :=
  match fuel, k.rest with
  | 0, _ | _, [] => .ok (done, k)
  | fuel + 1, c :: rest =>
    if isSpaceOrTab c || isBreak c then .ok (done, k)
    else if inFlow && c = ':' && rest.head?.any (fun d => [',', '?', '[', ']', '\x7b', '\x7d'].contains d) then
      .error .character
    else if (c = ':' && k.isBlankAt 1) ||
        (inFlow && [',', '[', ']', '\x7b', '\x7d'].contains c) then .ok (done, k)
    else readPlainRun fuel inFlow (c :: done) k.skip

/-- A plain scalar whose further lines are indented by `indent`; the text read so far is in
reverse. Also tells whether the scalar is followed by a line end. -/
def readPlain (fuel : Nat) (inFlow : Bool) (indent : Nat) (done : List Char) (gap : Gap)
    (k : Cursor) : Except Malformed (List Char × Bool × Cursor) :=
  match fuel with
  | 0 => .ok (done.reverse, gap.broken, k)
  | fuel + 1 =>
    if k.atMarker '-' || k.atMarker '.' || k.isAt '#' then .ok (done.reverse, gap.broken, k)
    else do
      let (run, next) ← readPlainRun k.rest.length inFlow [] k
      let done := if run.isEmpty then done else run ++ gap.text.reverse ++ done
      let gap := if run.isEmpty then gap else {}
      if next.atSpaceOrTab || next.atBreak then
        let (gap, next) ← readGap next.rest.length (some indent) gap next
        if !inFlow && next.column < indent then .ok (done.reverse, gap.broken, next)
        else readPlain fuel inFlow indent done gap next
      else .ok (done.reverse, gap.broken, next)

def hexValue? (c : Char) : Option Nat :=
  if c.isDigit then some (c.toNat - 48)
  else if 'a' ≤ c && c ≤ 'f' then some (c.toNat - 87)
  else if 'A' ≤ c && c ≤ 'F' then some (c.toNat - 55)
  else none

def hexNumber? (digits : List Char) : Option Nat :=
  digits.foldlM (fun n c => (hexValue? c).map (n * 16 + ·)) 0

/-- The character for the letter of an escape without a code. -/
def escapedLetter? (c : Char) : Option Char :=
  match c with
  | '0' => some '\x00'
  | 'a' => some '\x07'
  | 'b' => some '\x08'
  | 't' | '\t' => some '\t'
  | 'n' => some '\n'
  | 'v' => some '\x0b'
  | 'f' => some '\x0c'
  | 'r' => some '\r'
  | 'e' => some '\x1b'
  | ' ' => some ' '
  | '"' => some '"'
  | '/' => some '/'
  | '\\' => some '\\'
  | 'N' => some '\u0085'
  | '_' => some '\u00a0'
  | 'L' => some '\u2028'
  | 'P' => some '\u2029'
  | _ => none

/-- The escape at the cursor, which stands on its backslash. -/
def readEscape (k : Cursor) : Except Malformed (Char × Cursor) :=
  match k.peekAt 1 with
  | none => .error .escape
  | some letter =>
    match escapedLetter? letter with
    | some c => .ok (c, k.skipMany 2)
    | none =>
      let size := if letter = 'x' then 2 else if letter = 'u' then 4 else if letter = 'U' then 8 else 0
      let digits := (k.rest.drop 2).take size
      match hexNumber? digits with
      | some n =>
        if size = 0 || digits.length < size || (0xD800 ≤ n && n ≤ 0xDFFF) || 0x10FFFF < n then
          .error .escape
        else .ok (Char.ofNat n, k.skipMany (2 + size))
      | none => .error .escape

/-- A run of non-blank characters of a quoted scalar, in reverse; `true` when it ended with an
escaped line end. -/
def readQuotedRun (fuel : Nat) (quote : Char) (done : List Char) (k : Cursor) :
    Except Malformed (List Char × Bool × Cursor) :=
  match fuel, k.rest with
  | 0, _ | _, [] => .ok (done, false, k)
  | fuel + 1, c :: rest =>
    if isSpaceOrTab c || isBreak c then .ok (done, false, k)
    else if quote = '\'' && c = quote && rest.head? = some quote then
      readQuotedRun fuel quote (quote :: done) (k.skipMany 2)
    else if c = quote then .ok (done, false, k)
    else if quote = '"' && c = '\\' then
      if rest.head?.any isBreak then .ok (done, true, k.skip.skipBreak)
      else do
        let (e, next) ← readEscape k
        readQuotedRun fuel quote (e :: done) next
    else readQuotedRun fuel quote (c :: done) k.skip

/-- A quoted scalar after its first quote; the text read so far is in reverse. -/
def readQuoted (fuel : Nat) (quote : Char) (done : List Char) (k : Cursor) :
    Except Malformed (List Char × Cursor) :=
  match fuel with
  | 0 => .error .unfinished
  | fuel + 1 =>
    if k.atMarker '-' || k.atMarker '.' then .error .misplaced
    else if k.isEnd then .error .unfinished
    else do
      let (done, escaped, next) ← readQuotedRun k.rest.length quote done k
      if next.isAt quote then .ok (done.reverse, next.skip)
      else
        let (gap, next) ← readGap next.rest.length none { broken := escaped } next
        readQuoted fuel quote (gap.text.reverse ++ done) next

/-- What becomes of the line ends after a block scalar. -/
inductive Chomping
  | strip
  | clip
  | keep
  deriving DecidableEq

/-- The chomping and the indentation that the header of a block scalar gives. -/
def readBlockHeader (k : Cursor) : Except Malformed (Chomping × Option Nat × Cursor) := do
  let chomping (k : Cursor) : Option Chomping × Cursor :=
    if k.isAt '+' then (some .keep, k.skip)
    else if k.isAt '-' then (some .strip, k.skip)
    else (none, k)
  let increment (k : Cursor) : Except Malformed (Option Nat × Cursor) :=
    match k.peek with
    | some c =>
      if c = '0' then .error .scalarHeader
      else if c.isDigit then .ok (some (c.toNat - 48), k.skip)
      else .ok (none, k)
    | none => .ok (none, k)
  let (first, k) := chomping k
  let (indent, k) ← increment k
  let (second, k) := if first.isNone && indent.isSome then chomping k else (none, k)
  let k := (k.skipWhile isSpaceOrTab).skipComment
  if k.isEnd || k.atBreak then .ok ((first <|> second).getD .clip, indent, k.skipBreak)
  else .error .scalarHeader

/-- The empty lines before the next line of a block scalar, and the most indented of them. With no
`indent` known yet, all blanks count as indentation. -/
def readBlockBreaks (fuel : Nat) (indent : Option Nat) (deepest : Nat) (done : List Char)
    (k : Cursor) : Except Malformed (List Char × Nat × Cursor) :=
  match fuel with
  | 0 => .ok (done, deepest, k)
  | fuel + 1 =>
    let blanks := k.rest.takeWhile (· = ' ')
    let taken := match indent with
      | some n => min blanks.length (n - k.column)
      | none => blanks.length
    let k := k.skipMany taken
    let deepest := max deepest k.column
    if indent.all (k.column < ·) && k.isAt '\t' then .error .indentation
    else if k.atBreak then
      let (text, next) := k.takeBreak
      readBlockBreaks fuel indent deepest (done ++ text) next
    else .ok (done, deepest, k)

/-- The lines of a block scalar. The line end before the next line and the empty lines after it are
kept apart from the text read so far, which is in reverse. -/
def readBlockLines (fuel : Nat) (isFolded : Bool) (indent : Nat) (done lineEnd breaks : List Char)
    (wasIndented : Bool) (k : Cursor) :
    Except Malformed (List Char × List Char × List Char × Cursor) :=
  match fuel with
  | 0 => .ok (done, lineEnd, breaks, k)
  | fuel + 1 =>
    if k.column = indent && !k.isEnd then do
      let isIndented := k.atSpaceOrTab
      let joint :=
        if isFolded && lineEnd = ['\n'] && !wasIndented && !isIndented then
          if breaks.isEmpty then [' '] else []
        else lineEnd
      let (line, next) := k.takeWhile fun c => !isBreak c
      let done := line.reverse ++ breaks.reverse ++ joint.reverse ++ done
      let (lineEnd, next) := next.takeBreak
      let (breaks, _, next) ← readBlockBreaks next.rest.length.succ (some indent) 0 [] next
      readBlockLines fuel isFolded indent done lineEnd breaks isIndented next
    else .ok (done, lineEnd, breaks, k)

/-- A block scalar after its indicator, inside a block indented by `outer`. -/
def readBlock (isFolded : Bool) (outer : Option Nat) (k : Cursor) :
    Except Malformed (List Char × Cursor) := do
  let (chomping, increment, k) ← readBlockHeader k
  let given := increment.map (outer.getD 0 + ·)
  let (breaks, deepest, k) ← readBlockBreaks k.rest.length.succ given 0 [] k
  let indent := given.getD (max (max deepest (outer.elim 0 (· + 1))) 1)
  let (done, lineEnd, breaks, k) ←
    readBlockLines k.rest.length.succ isFolded indent [] [] breaks false k
  let tail := match chomping with
    | .strip => []
    | .clip => lineEnd
    | .keep => lineEnd ++ breaks
  .ok (done.reverse ++ tail, k)

end LaunchPlan.Yaml
