import LaunchPlan.Yaml.Scalar

/-!
# Tokens of a YAML text

Indentation becomes tokens for the start and the end of blocks. A key without an
indicator is recognised only at the colon after it; its token, and the start of
the mapping it belongs to, are then put in front of it.
-/

namespace LaunchPlan.Yaml

inductive Token
  | version (major minor : Nat)
  /-- A directive that lets a tag handle stand for a longer text. -/
  | handle (handle expansion : String)
  | documentStart
  | documentEnd
  | blockSequenceStart
  | blockMappingStart
  | blockEnd
  | flowSequenceStart
  | flowSequenceEnd
  | flowMappingStart
  | flowMappingEnd
  | blockEntry
  | flowEntry
  | key
  | value
  | alias (name : String)
  | anchor (name : String)
  | tag (handle suffix : String)
  | scalar (text : String) (style : Style)
  deriving DecidableEq, Repr

/-- A place where a key may have begun. -/
structure KeyStart where
  /-- Whether nothing but a key can stand there. -/
  required : Bool
  /-- How many tokens come before the key. -/
  position : Nat
  index : Nat
  line : Nat
  column : Nat

/-- What is known after a part of the text. -/
structure Scan where
  cursor : Cursor
  tokens : Array Token := #[]
  /-- The indentation of the innermost block, none outside of all blocks. -/
  indent : Option Nat := none
  outerIndents : List (Option Nat) := []
  /-- Where a key may have begun, in this collection and in the ones around it. -/
  keyStart : Option KeyStart := none
  outerKeyStarts : List (Option KeyStart) := []
  /-- Whether a key may begin here. -/
  keyAllowed : Bool := true

namespace Scan

def inFlow (s : Scan) : Bool :=
  !s.outerKeyStarts.isEmpty

def push (s : Scan) (token : Token) : Scan :=
  { s with tokens := s.tokens.push token }

def pushAt (s : Scan) (position : Nat) (token : Token) : Scan :=
  { s with tokens := (s.tokens.extract 0 position).push token ++ s.tokens.extract position s.tokens.size }

def skip (s : Scan) (n : Nat) : Scan :=
  { s with cursor := s.cursor.skipMany n }

/-- Closes every block that is indented by more than `column`; all of them for `none`. -/
def closeBlocks (s : Scan) (column : Option Nat) : Scan :=
  if s.inFlow then s else go s.outerIndents s
where
  go : List (Option Nat) → Scan → Scan
    | [], s => s
    | outer :: rest, s =>
      if s.indent.any fun i => column.all (· < i) then
        go rest { s.push .blockEnd with indent := outer, outerIndents := rest }
      else s

/-- Opens a block at `column`, with its token at `position`, if it is indented further. -/
def openBlock (s : Scan) (column position : Nat) (token : Token) : Scan :=
  if !s.inFlow && s.indent.all (· < column) then
    { s.pushAt position token with
      indent := some column, outerIndents := s.indent :: s.outerIndents }
  else s

/-- No key begins at the place noted last. -/
def dropKeyStart (s : Scan) : Except Malformed Scan :=
  if s.keyStart.any KeyStart.required then .error .keyExpected
  else .ok { s with keyStart := none }

/-- Notes that a key may begin here. -/
def noteKeyStart (s : Scan) : Except Malformed Scan :=
  if s.keyAllowed then do
    let s ← s.dropKeyStart
    .ok { s with keyStart := some {
      required := !s.inFlow && s.indent = some s.cursor.column
      position := s.tokens.size
      index := s.cursor.index
      line := s.cursor.line
      column := s.cursor.column } }
  else .ok s

/-- A key ends in its line and within 1024 characters. -/
def isStale (k : Cursor) (start : KeyStart) : Bool :=
  start.line < k.line || start.index + 1024 < k.index

def dropStale (s : Scan) : Except Malformed Scan :=
  let check (start : Option KeyStart) : Except Malformed (Option KeyStart) :=
    if start.any (isStale s.cursor) then
      if start.any KeyStart.required then .error .keyExpected else .ok none
    else .ok start
  do
    let outer ← s.outerKeyStarts.mapM check
    .ok { s with keyStart := ← check s.keyStart, outerKeyStarts := outer }

/-- Past blanks, comments and line ends. A tab counts as a blank only where no key may begin. -/
def skipBlanks : (fuel : Nat) → Scan → Scan
  | 0, s => s
  | fuel + 1, s =>
    let k := if s.cursor.index = 0 && s.cursor.isAt '\uFEFF' then s.cursor.skip else s.cursor
    let k := k.skipWhile fun c => c = ' ' || (c = '\t' && (s.inFlow || !s.keyAllowed))
    let k := k.skipComment
    if k.atBreak then
      skipBlanks fuel { s with cursor := k.skipBreak, keyAllowed := !s.inFlow || s.keyAllowed }
    else { s with cursor := k }

/-- A number of at most nine digits. -/
def readVersionNumber (k : Cursor) : Except Malformed (Nat × Cursor) :=
  let (digits, k) := k.takeWhile Char.isDigit
  if digits.isEmpty || 9 < digits.length then .error .directive
  else .ok (digits.foldl (fun n c => n * 10 + (c.toNat - 48)) 0, k)

/-- The bytes of an escaped character of a tag: `%` and two hexadecimal digits each. -/
def readTagEscape (k : Cursor) : Except Malformed (Char × Cursor) := do
  let octet (n : Nat) : Except Malformed Nat :=
    match k.peekAt (3 * n), k.peekAt (3 * n + 1), k.peekAt (3 * n + 2) with
    | some '%', some a, some b =>
      match hexNumber? [a, b] with
      | some v => .ok v
      | none => .error .tag
    | _, _, _ => .error .tag
  let first ← octet 0
  let width :=
    if first < 0x80 then 1 else if first < 0xC0 then 0 else if first < 0xE0 then 2
    else if first < 0xF0 then 3 else if first < 0xF8 then 4 else 0
  let octets ← (List.range width).mapM octet
  match String.fromUTF8? ⟨(octets.map (·.toUInt8)).toArray⟩ with
  | some text =>
    match text.toList with
    | [c] => .ok (c, k.skipMany (3 * width))
    | _ => .error .tag
  | none => .error .tag

/-- A run of characters of a tag, in reverse. -/
def readTagText (fuel : Nat) (verbatim : Bool) (done : List Char) (k : Cursor) :
    Except Malformed (List Char × Cursor) :=
  match fuel, k.rest with
  | 0, _ | _, [] => .ok (done, k)
  | fuel + 1, c :: _ =>
    if c = '%' then do
      let (e, next) ← readTagEscape k
      readTagText fuel verbatim (e :: done) next
    else if isWordChar c || ";/?:@&=+$.!~*'()".toList.contains c ||
        (verbatim && [',', '[', ']'].contains c) then
      readTagText fuel verbatim (c :: done) k.skip
    else .ok (done, k)

/-- A handle: `!`, `!name!`, or the `!name` that begins a local tag. -/
def readHandle (k : Cursor) : Except Malformed (List Char × Cursor) :=
  if k.isAt '!' then
    let (name, k) := k.skip.takeWhile isWordChar
    if k.isAt '!' then .ok ('!' :: name ++ ['!'], k.skip) else .ok ('!' :: name, k)
  else .error .tag

/-- The tag at the cursor: its handle and its suffix. -/
def readTag (inFlow : Bool) (k : Cursor) : Except Malformed (String × String × Cursor) := do
  let (handle, suffix, k) ←
    if k.peekAt 1 = some '<' then do
      let (text, k) ← readTagText k.rest.length true [] (k.skipMany 2)
      if text.isEmpty || !k.isAt '>' then .error .tag
      else .ok ([], text.reverse, k.skip)
    else do
      let (handle, k) ← readHandle k
      if 1 < handle.length && handle.getLast? = some '!' then
        let (text, k) ← readTagText k.rest.length false [] k
        if text.isEmpty then .error .tag else .ok (handle, text.reverse, k)
      else
        let (text, k) ← readTagText k.rest.length false handle.tail.reverse k
        if text.isEmpty then .ok ([], ['!'], k) else .ok (['!'], text.reverse, k)
  if k.isBlankAt 0 || (inFlow && k.isAt ',') then
    .ok (String.ofList handle, String.ofList suffix, k)
  else .error .tag

/-- A directive, whose `%` is at the cursor, up to the end of its line. -/
def readDirective (k : Cursor) : Except Malformed (Token × Cursor) := do
  let (name, k) := k.skip.takeWhile isWordChar
  if name.isEmpty || !k.isBlankAt 0 then .error .directive
  let (token, k) ←
    match String.ofList name with
    | "YAML" => do
      let (major, k) ← readVersionNumber (k.skipWhile isSpaceOrTab)
      if !k.isAt '.' then .error .directive
      let (minor, k) ← readVersionNumber k.skip
      .ok (Token.version major minor, k)
    | "TAG" => do
      let (handle, k) ← readHandle (k.skipWhile isSpaceOrTab)
      if handle ≠ ['!'] && (handle.length = 1 || handle.getLast? ≠ some '!') then .error .directive
      if !k.atSpaceOrTab then .error .directive
      let (text, k) ← readTagText k.rest.length true [] (k.skipWhile isSpaceOrTab)
      if text.isEmpty || !k.isBlankAt 0 then .error .directive
      .ok (.handle (String.ofList handle) (String.ofList text.reverse), k)
    | _ => .error .directive
  let k := (k.skipWhile isSpaceOrTab).skipComment
  if k.isEnd || k.atBreak then .ok (token, k.skipBreak) else .error .directive

/-- The name of an anchor or an alias after its indicator. -/
def readAnchorName (k : Cursor) : Except Malformed (String × Cursor) :=
  let (name, k) := k.skip.takeWhile isWordChar
  if !name.isEmpty &&
      (k.isBlankAt 0 || k.peek.any (['?', ':', ',', ']', '\x7d', '%', '@', '\x60'].contains ·)) then
    .ok (String.ofList name, k)
  else .error .anchor

/-- A token that ends everything open: a marker or a directive. -/
def atTop (s : Scan) : Except Malformed Scan := do
  let s ← (s.closeBlocks none).dropKeyStart
  .ok { s with keyAllowed := false }

def openFlow (s : Scan) (token : Token) : Except Malformed Scan := do
  let s ← s.noteKeyStart
  .ok { (s.push token).skip 1 with
    keyStart := none, outerKeyStarts := s.keyStart :: s.outerKeyStarts, keyAllowed := true }

def closeFlow (s : Scan) (token : Token) : Except Malformed Scan := do
  let s ← s.dropKeyStart
  let s := match s.outerKeyStarts with
    | outer :: rest => { s with keyStart := outer, outerKeyStarts := rest }
    | [] => s
  .ok { (s.push token).skip 1 with keyAllowed := false }

/-- An entry of a block sequence, or an explicit key; `opens` is the block it may begin. -/
def indicator (s : Scan) (token opens : Token) (allowed : Bool) : Except Malformed Scan := do
  if !s.inFlow && !s.keyAllowed then .error .misplaced
  let s := s.openBlock s.cursor.column s.tokens.size opens
  let s ← s.dropKeyStart
  .ok { (s.push token).skip 1 with keyAllowed := allowed }

/-- A colon: it makes the place noted last a key, or follows an explicit one. -/
def valueIndicator (s : Scan) : Except Malformed Scan :=
  match s.keyStart with
  | some start =>
    let s := s.pushAt start.position .key
    let s := s.openBlock start.column start.position .blockMappingStart
    .ok { (s.push .value).skip 1 with keyStart := none, keyAllowed := false }
  | none => do
    if !s.inFlow && !s.keyAllowed then .error .misplaced
    let s := s.openBlock s.cursor.column s.tokens.size .blockMappingStart
    .ok { (s.push .value).skip 1 with keyAllowed := !s.inFlow }

/-- A token that may be, or begin, a key. -/
def keyLike (s : Scan) (read : Cursor → Except Malformed (Token × Cursor)) :
    Except Malformed Scan := do
  let s ← s.noteKeyStart
  let (token, k) ← read s.cursor
  .ok { s.push token with cursor := k, keyAllowed := false }

def plain (s : Scan) : Except Malformed Scan := do
  let s ← s.noteKeyStart
  let indent := s.indent.elim 0 (· + 1)
  let (text, broken, k) ← readPlain s.cursor.rest.length.succ s.inFlow indent [] {} s.cursor
  .ok { s.push (.scalar (String.ofList text) .plain) with cursor := k, keyAllowed := broken }

def block (s : Scan) (style : Style) : Except Malformed Scan := do
  let s ← s.dropKeyStart
  let (text, k) ← readBlock (style = .folded) s.indent s.cursor.skip
  .ok { s.push (.scalar (String.ofList text) style) with cursor := k, keyAllowed := true }

def quoted (quote : Char) (style : Style) (k : Cursor) : Except Malformed (Token × Cursor) := do
  let (text, k) ← readQuoted k.rest.length.succ quote [] k.skip
  .ok (.scalar (String.ofList text) style, k)

/-- Whether a plain scalar may begin here. -/
def startsPlain (s : Scan) (c : Char) : Bool :=
  let k := s.cursor
  if c = '-' then !(k.peekAt 1).any isSpaceOrTab
  else if c = '?' || c = ':' then !s.inFlow && !k.isBlankAt 1
  else !k.isBlankAt 0 &&
    c ∉ [',', '[', ']', '\x7b', '\x7d', '#', '&', '*', '!', '|', '>', '\'', '"', '%', '@', '\x60']

/-- The token that begins with `c`, the character at the cursor. -/
def next (s : Scan) (c : Char) : Except Malformed Scan := do
  let k := s.cursor
  if k.column = 0 && c = '%' then
    let s ← s.atTop
    let (token, k) ← readDirective s.cursor
    .ok { s.push token with cursor := k }
  else if k.atMarker '-' then
    return ((← s.atTop).push .documentStart).skip 3
  else if k.atMarker '.' then
    return ((← s.atTop).push .documentEnd).skip 3
  else if c = '[' then s.openFlow .flowSequenceStart
  else if c = '\x7b' then s.openFlow .flowMappingStart
  else if c = ']' then s.closeFlow .flowSequenceEnd
  else if c = '\x7d' then s.closeFlow .flowMappingEnd
  else if c = ',' then
    let s ← s.dropKeyStart
    .ok { (s.push .flowEntry).skip 1 with keyAllowed := true }
  else if c = '-' && k.isBlankAt 1 then s.indicator .blockEntry .blockSequenceStart true
  else if c = '?' && (s.inFlow || k.isBlankAt 1) then
    s.indicator .key .blockMappingStart (!s.inFlow)
  else if c = ':' && (s.inFlow || k.isBlankAt 1) then s.valueIndicator
  else if c = '*' then
    s.keyLike fun k => do
      let (name, k) ← readAnchorName k
      .ok (.alias name, k)
  else if c = '&' then
    s.keyLike fun k => do
      let (name, k) ← readAnchorName k
      .ok (.anchor name, k)
  else if c = '!' then
    let inFlow := s.inFlow
    s.keyLike fun k => do
      let (handle, suffix, k) ← readTag inFlow k
      .ok (.tag handle suffix, k)
  else if c = '|' && !s.inFlow then s.block .literal
  else if c = '>' && !s.inFlow then s.block .folded
  else if c = '\'' then s.keyLike (quoted '\'' .singleQuoted)
  else if c = '"' then s.keyLike (quoted '"' .doubleQuoted)
  else if s.startsPlain c then s.plain
  else .error .character

/-- All further tokens; every one of them takes a character. -/
def run : (fuel : Nat) → Scan → Except Malformed (List Token)
  | 0, _ => .error .unfinished
  | fuel + 1, s => do
    let s ← (s.skipBlanks s.cursor.rest.length.succ).dropStale
    match s.cursor.peek with
    | none => return (← s.atTop).tokens.toList
    | some c => run fuel (← (s.closeBlocks (some s.cursor.column)).next c)

end Scan

/-- The tokens of a text. -/
def tokens (text : String) : Except Malformed (List Token) :=
  let cs := text.toList
  let cs := if cs.head? = some '\uFEFF' then cs.tail else cs
  if cs.all isAllowed then Scan.run cs.length.succ { cursor := { rest := cs } }
  else .error .character

end LaunchPlan.Yaml
