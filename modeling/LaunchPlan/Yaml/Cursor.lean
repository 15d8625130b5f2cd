import LaunchPlan.Yaml.Malformed

/-!
# A place in a YAML text

The characters that are left, and the line, column and index reached. A line ends
with a line feed, a carriage return, both, or one of the three Unicode line ends.
-/

namespace LaunchPlan.Yaml

structure Cursor where
  rest : List Char
  index : Nat := 0
  line : Nat := 0
  column : Nat := 0

def isBreak (c : Char) : Bool :=
  c = '\n' || c = '\r' || c = '\u0085' || c = '\u2028' || c = '\u2029'

def isSpaceOrTab (c : Char) : Bool :=
  c = ' ' || c = '\t'

/-- The characters of names of anchors, directives and tag handles. -/
def isWordChar (c : Char) : Bool :=
  c.isAlphanum || c = '_' || c = '-'

/-- The characters that a YAML text may hold. -/
def isAllowed (c : Char) : Bool :=
  let n := c.toNat
  n == 0x09 || n == 0x0A || n == 0x0D || (0x20 ≤ n && n ≤ 0x7E) || n == 0x85 ||
    (0xA0 ≤ n && n ≤ 0xFFFD) || 0x10000 ≤ n

namespace Cursor

/-- The character `n` places on, if the text is that long. -/
def peekAt (k : Cursor) (n : Nat) : Option Char :=
  k.rest[n]?

def peek (k : Cursor) : Option Char :=
  k.rest.head?

def isAt (k : Cursor) (c : Char) : Bool :=
  k.peek = some c

def isEnd (k : Cursor) : Bool :=
  k.rest.isEmpty

/-- Whether a blank, a line end or the end of the text is `n` places on. -/
def isBlankAt (k : Cursor) (n : Nat) : Bool :=
  match k.peekAt n with
  | none => true
  | some c => isSpaceOrTab c || isBreak c

def atBreak (k : Cursor) : Bool :=
  k.peek.any isBreak

def atSpaceOrTab (k : Cursor) : Bool :=
  k.peek.any isSpaceOrTab

/-- One character on, in the same line. -/
def skip (k : Cursor) : Cursor :=
  { k with rest := k.rest.tail, index := k.index + 1, column := k.column + 1 }

def skipMany : Nat → Cursor → Cursor
  | 0, k => k
  | n + 1, k => skipMany n k.skip

/-- Past a line end, and the text it stands for: a line feed, or itself for a line or paragraph
separator. Without a line end nothing is passed. -/
def takeBreak (k : Cursor) : List Char × Cursor :=
  match k.rest with
  | '\r' :: '\n' :: rest =>
    (['\n'], { rest, index := k.index + 2, line := k.line + 1, column := 0 })
  | c :: rest =>
    if isBreak c then
      (if c = '\u2028' || c = '\u2029' then [c] else ['\n'],
        { rest, index := k.index + 1, line := k.line + 1, column := 0 })
    else ([], k)
  | [] => ([], k)

def skipBreak (k : Cursor) : Cursor :=
  k.takeBreak.2

/-- The longest run of characters with a property, and the place after it. -/
def takeWhile (k : Cursor) (p : Char → Bool) : List Char × Cursor :=
  let run := k.rest.takeWhile p
  (run, { k with
    rest := k.rest.dropWhile p
    index := k.index + run.length
    column := k.column + run.length })

def skipWhile (k : Cursor) (p : Char → Bool) : Cursor :=
  (k.takeWhile p).2

/-- Past a comment, up to the end of its line. -/
def skipComment (k : Cursor) : Cursor :=
  if k.isAt '#' then k.skipWhile fun c => !isBreak c else k

/-- Whether a marker of three equal characters begins the line and stands alone. -/
def atMarker (k : Cursor) (c : Char) : Bool :=
  k.column = 0 && k.rest.take 3 = [c, c, c] && k.isBlankAt 3

end Cursor

end LaunchPlan.Yaml
