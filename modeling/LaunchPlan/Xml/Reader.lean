import LaunchPlan.Xml.Element
import LaunchPlan.Xml.Malformed
import LaunchPlan.Text.Blank

/-!
# Reading documents

XML 1.0 with namespaces. A document type declaration is refused, so the only
entities are the five predefined ones and character references. Attribute values
are normalised: tabs and line ends become blanks, a carriage return before a line
feed is left out.
-/

namespace LaunchPlan.Xml

/-- A name with the qualifier in front of its colon, which is empty when there is none. -/
structure QName where
  qualifier : String
  name : String
  deriving DecidableEq, Repr

def isSpace (c : Char) : Bool :=
  c = ' ' || c = '\t' || c = '\n' || c = '\r'

/-- The characters a document may hold. -/
def isAllowed (c : Char) : Bool :=
  if c.toNat < 0x20 then isSpace c else c.toNat ≠ 0xFFFE && c.toNat ≠ 0xFFFF

def isNameStart (c : Char) : Bool :=
  let n := c.toNat
  if n < 0x80 then c.isAlpha || c = ':' || c = '_'
  else (0xC0 ≤ n && n ≤ 0x2FF && n ≠ 0xD7 && n ≠ 0xF7) || (0x370 ≤ n && n ≤ 0x1FFF && n ≠ 0x37E) ||
    n == 0x200C || n == 0x200D || (0x2070 ≤ n && n ≤ 0x218F) || (0x2C00 ≤ n && n ≤ 0x2FEF) ||
    (0x3001 ≤ n && n ≤ 0xD7FF) || (0xF900 ≤ n && n ≤ 0xFDCF) || (0xFDF0 ≤ n && n ≤ 0xFFFD) ||
    (0x10000 ≤ n && n ≤ 0xEFFFF)

def isNameChar (c : Char) : Bool :=
  let n := c.toNat
  isNameStart c || c.isDigit || c = '-' || c = '.' || n == 0xB7 || (0x300 ≤ n && n ≤ 0x36F) ||
    n == 0x203F || n == 0x2040

def skipSpaces (cs : List Char) : List Char :=
  cs.dropWhile isSpace

def startsWithSpace (cs : List Char) : Bool :=
  cs.head?.any isSpace

def startsWith (text : String) (cs : List Char) : Bool :=
  text.toList.isPrefixOf cs

/-- The rest after a fixed text. -/
def expect (text : String) (cs : List Char) : Except Malformed (List Char) :=
  if startsWith text cs then .ok (cs.drop text.length)
  else match cs with
    | [] => .error .unexpectedEnd
    | c :: _ => .error (.unexpectedCharacter c)

/-- The text before a mark and the rest after it. -/
def takeUntil (mark : List Char) : List Char → Except Malformed (List Char × List Char)
  | [] => .error .unexpectedEnd
  | c :: cs =>
    if mark.isPrefixOf (c :: cs) then .ok ([], (c :: cs).drop mark.length)
    else if isAllowed c then do
      let (before, after) ← takeUntil mark cs
      .ok (c :: before, after)
    else .error (.unexpectedCharacter c)

def readName (cs : List Char) : Except Malformed (List Char × List Char) :=
  match cs with
  | [] => .error .invalidName
  | c :: _ => if isNameStart c then .ok (cs.span isNameChar) else .error .invalidName

/-- A name with at most one colon that counts as the end of a qualifier. -/
def readQName (cs : List Char) : Except Malformed (QName × List Char) :=
  let plain (c : Char) : Bool := isNameChar c && c ≠ ':'
  let (first, rest) := cs.span plain
  let (qualifier, name, rest) :=
    match rest with
    | ':' :: more => (first, more.span plain)
    | _ => ([], first, rest)
  if name.head?.any isNameStart && qualifier.head?.all isNameStart then
    .ok (⟨String.ofList qualifier, String.ofList name⟩, rest)
  else .error .invalidName

def predefined (name : List Char) : Option Char :=
  match String.ofList name with
  | "quot" => some '"'
  | "amp" => some '&'
  | "apos" => some '\''
  | "lt" => some '<'
  | "gt" => some '>'
  | _ => none

def digitValue (c : Char) : Nat :=
  if c.isDigit then c.toNat - 48
  else if 'a' ≤ c && c ≤ 'f' then c.toNat - 87
  else c.toNat - 55

def numberIn (base : Nat) (digits : List Char) : Nat :=
  digits.foldl (fun n c => n * base + digitValue c) 0

/-- The character with a code point; the replacement character where there is none. -/
def charOfCode (n : Nat) : Char :=
  if n < 0xD800 ∨ (0xDFFF < n ∧ n < 0x110000) then Char.ofNat n else '\uFFFD'

/-- A reference after its ampersand. -/
def readReference (cs : List Char) : Except Malformed (Char × List Char) := do
  let (c, rest) ←
    match cs with
    | '#' :: more =>
      let (base, digits, rest) :=
        match more with
        | 'x' :: hex =>
          (16, hex.span fun c => c.isDigit || ('a' ≤ c && c ≤ 'f') || ('A' ≤ c && c ≤ 'F'))
        | _ => (10, more.span Char.isDigit)
      let code := numberIn base digits
      if digits.isEmpty || 0xFFFFFFFF < code || !isAllowed (charOfCode code) then
        .error Malformed.invalidReference
      else .ok (charOfCode code, rest)
    | _ => do
      let (name, rest) ← readName cs
      match predefined name with
      | some c => .ok (c, rest)
      | none => .error .invalidReference
  match rest with
  | ';' :: rest => .ok (c, rest)
  | _ => .error .invalidReference

/-- The value of an attribute as written, normalised. Each step uses up a character, so `fuel`
characters are enough. -/
def normalise : (fuel : Nat) → List Char → Except Malformed (List Char)
  | 0, _ | _, [] => .ok []
  | fuel + 1, '&' :: cs => do
    let (c, rest) ← readReference cs
    return c :: (← normalise fuel rest)
  | fuel + 1, '\r' :: '\n' :: cs => normalise fuel ('\n' :: cs)
  | fuel + 1, c :: cs => do
    return (if isSpace c then ' ' else c) :: (← normalise fuel cs)

/-- Whether all references in a piece of text can be read. -/
def checkReferences : (fuel : Nat) → List Char → Except Malformed Unit
  | 0, _ | _, [] => .ok ()
  | fuel + 1, '&' :: cs => do
    let (_, rest) ← readReference cs
    checkReferences fuel rest
  | fuel + 1, _ :: cs => checkReferences fuel cs

/-- An attribute, its value as written. -/
def readAttribute (cs : List Char) : Except Malformed (QName × List Char × List Char) := do
  let (name, rest) ← readQName cs
  let rest ← expect "=" (skipSpaces rest)
  match skipSpaces rest with
  | [] => .error .unexpectedEnd
  | quote :: rest =>
    if quote = '"' || quote = '\'' then
      let (value, rest) ← takeUntil [quote] rest
      if value.contains '<' then .error (.unexpectedCharacter '<')
      else .ok (name, value, rest)
    else .error (.unexpectedCharacter quote)

/-- The attributes of a tag as written, and whether it closes itself. -/
def readAttributes : (fuel : Nat) → List Char →
    Except Malformed (List (QName × List Char) × Bool × List Char)
  | 0, _ => .error .unexpectedEnd
  | fuel + 1, cs =>
    match skipSpaces cs with
    | [] => .error .unexpectedEnd
    | '/' :: rest => do .ok ([], true, ← expect ">" rest)
    | '>' :: rest => .ok ([], false, rest)
    | c :: rest =>
      if startsWithSpace cs then do
        let (name, value, rest) ← readAttribute (c :: rest)
        let (others, closed, rest) ← readAttributes fuel rest
        .ok ((name, value) :: others, closed, rest)
      else .error (.unexpectedCharacter c)

/-- The bindings of qualifiers to namespaces, the innermost first; the empty qualifier stands for
the default namespace. -/
abbrev Namespaces : Type := List (String × String)

def xmlSpace : String := "http://www.w3.org/XML/1998/namespace"

def xmlnsSpace : String := "http://www.w3.org/2000/xmlns/"

/-- The bindings that the attributes of a tag make. -/
def declaredSpaces : List (QName × String) → Except Malformed Namespaces
  | [] => .ok []
  | (name, value) :: rest => do
    let others ← declaredSpaces rest
    if name.qualifier = "xmlns" then
      if value = xmlnsSpace || (name.name = "xml") ≠ (value = xmlSpace) then
        .error .reservedNamespace
      else if value = xmlSpace then .ok others
      else if others.any fun (q, _) => q = name.name then .error (.duplicate name.name)
      else .ok ((name.name, value) :: others)
    else if name.name = "xmlns" then
      if value = xmlSpace || value = xmlnsSpace then .error .reservedNamespace
      else .ok (("", value) :: others)
    else .ok others

def isDeclaration (name : QName) : Bool :=
  name.qualifier = "xmlns" || name.name = "xmlns"

/-- The namespace of a qualifier. -/
def spaceOf (spaces : Namespaces) (qualifier : String) : Except Malformed (Option String) :=
  match spaces.lookup qualifier with
  | some space => .ok (some space)
  | none => if qualifier.isEmpty then .ok none else .error (.unknownNamespace qualifier)

/-- The attributes of a tag that bind no namespace. -/
def plainAttributes (spaces : Namespaces) :
    List (QName × String) → List Attribute → Except Malformed (List Attribute)
  | [], done => .ok done.reverse
  | (name, value) :: rest, done =>
    if isDeclaration name then plainAttributes spaces rest done
    else do
      let space ←
        if name.qualifier = "xml" then .ok (some xmlSpace)
        else if name.qualifier.isEmpty then .ok none
        else spaceOf spaces name.qualifier
      if done.any fun a => a.space = space && a.name = name.name then
        .error (.duplicate name.name)
      else plainAttributes spaces rest (⟨space, name.name, value⟩ :: done)

/-- An element whose end is still to come, its children in reverse. -/
structure Frame where
  tag : QName
  spaces : Namespaces
  attributes : List Attribute
  children : List Element := []

def Frame.element (f : Frame) : Element :=
  .mk f.tag.name f.attributes f.children.reverse

/-- A start tag after its `<`, inside the namespaces `spaces`, and whether it closes itself. -/
def readStartTag (spaces : Namespaces) (cs : List Char) :
    Except Malformed (Frame × Bool × List Char) := do
  let (tag, rest) ← readQName cs
  if tag.qualifier = "xmlns" then .error .invalidName
  else
    let (written, closed, rest) ← readAttributes (rest.length + 1) rest
    let values ← written.mapM fun (name, value) => do
      return (name, String.ofList (← normalise value.length value))
    let inner := (← declaredSpaces values) ++ spaces
    let attributes ← plainAttributes inner values []
    let _ ← spaceOf inner tag.qualifier
    .ok ({ tag, spaces := inner, attributes }, closed, rest)

/-- An end tag after its `</`. -/
def readEndTag (cs : List Char) : Except Malformed (QName × List Char) := do
  let (tag, rest) ← readQName cs
  .ok (tag, ← expect ">" (skipSpaces rest))

/-- The rest after a comment whose `<!--` has been read. -/
def skipComment (cs : List Char) : Except Malformed (List Char) := do
  let (text, rest) ← takeUntil "-->".toList cs
  if text.getLast? = some '-' || (text.zip (text.drop 1)).any (· = ('-', '-')) then
    .error .invalidComment
  else .ok rest

/-- The rest after a processing instruction. -/
def skipInstruction (cs : List Char) : Except Malformed (List Char) :=
  if startsWith "<?xml " cs then .error .misplacedDeclaration
  else do
    let (_, rest) ← readName (cs.drop 2)
    return (← takeUntil "?>".toList (skipSpaces rest)).2

/-- The rest after a piece of text. -/
def skipText (cs : List Char) : Except Malformed (List Char) :=
  let (text, rest) := cs.span (· ≠ '<')
  match text.find? fun c => !isAllowed c with
  | some c => .error (.unexpectedCharacter c)
  | none =>
    if (takeUntil "]]>".toList text).isOk then .error .invalidText
    else do
      checkReferences text.length text
      .ok rest

/-- The content of the open elements, innermost first, up to the end of the outermost. -/
def readContent : (fuel : Nat) → Frame → List Frame → List Char →
    Except Malformed (Element × List Char)
  | 0, _, _, _ => .error .unexpectedEnd
  | _, _, _, [] => .error .unexpectedEnd
  | fuel + 1, frame, outer, cs@(c :: rest) =>
    if c ≠ '<' then do readContent fuel frame outer (← skipText cs)
    else if startsWith "<!--" cs then do readContent fuel frame outer (← skipComment (cs.drop 4))
    else if startsWith "<![CDATA[" cs then do
      readContent fuel frame outer (← takeUntil "]]>".toList (cs.drop 9)).2
    else if startsWith "<?" cs then do readContent fuel frame outer (← skipInstruction cs)
    else if startsWith "</" cs then do
      let (tag, rest) ← readEndTag (cs.drop 2)
      if tag ≠ frame.tag then .error (.unclosedTag frame.tag.name)
      else
        match outer with
        | [] => .ok (frame.element, rest)
        | next :: outer =>
          readContent fuel { next with children := frame.element :: next.children } outer rest
    else do
      let (inner, closed, rest) ← readStartTag frame.spaces rest
      if closed then
        readContent fuel { frame with children := inner.element :: frame.children } outer rest
      else readContent fuel inner (frame :: outer) rest

/-- The rest after spaces, comments and processing instructions. -/
def skipMisc : (fuel : Nat) → List Char → Except Malformed (List Char)
  | 0, cs => .ok cs
  | fuel + 1, cs =>
    let cs := skipSpaces cs
    if startsWith "<!--" cs then do skipMisc fuel (← skipComment (cs.drop 4))
    else if startsWith "<?" cs then do skipMisc fuel (← skipInstruction cs)
    else .ok cs

/-- Spaces between the parts of a declaration. -/
def declarationSpaces (cs : List Char) : Except Malformed (List Char) :=
  if startsWithSpace cs || cs.isEmpty || startsWith "?>" cs then .ok (skipSpaces cs)
  else .error (.unexpectedCharacter (cs.headD ' '))

/-- The rest after the declaration that may begin a document. -/
def skipDeclaration (cs : List Char) : Except Malformed (List Char) := do
  let cs ← declarationSpaces (cs.drop 5)
  let _ ← expect "version" cs
  let (_, _, cs) ← readAttribute cs
  let cs ← declarationSpaces cs
  let cs ←
    if startsWith "encoding" cs then do
      let (_, _, cs) ← readAttribute cs
      declarationSpaces cs
    else .ok cs
  let cs ←
    if startsWith "standalone" cs then do
      let (_, _, cs) ← readAttribute cs
      .ok cs
    else .ok cs
  expect "?>" (skipSpaces cs)

/-- The root element of a document. -/
def readDocument (text : String) : Except Malformed Element := do
  let cs := text.toList
  let fuel := cs.length + 1
  let cs := if cs.head? = some '\uFEFF' then cs.drop 1 else cs
  let cs ← if startsWith "<?xml " cs then skipDeclaration cs else .ok cs
  let cs := skipSpaces (← skipMisc fuel cs)
  if startsWith "<!DOCTYPE" cs then .error .documentType
  else
    match cs with
    | '<' :: cs =>
      let (frame, closed, cs) ← readStartTag [] cs
      let (root, cs) ← if closed then .ok (frame.element, cs) else readContent fuel frame [] cs
      let cs ← skipMisc fuel cs
      if cs.isEmpty then .ok root else .error .trailingText
    | _ => .error .noRoot

end LaunchPlan.Xml
