import LaunchPlan.Yaml.Token

/-!
# Nodes of a YAML document

The tree that the tokens of a text describe. Anchors are numbered; a name used
again takes the number of names known so far, so it may take one in use, and the
node that comes last under a number is the one its aliases stand for.
-/

namespace LaunchPlan.Yaml

inductive Node
  | scalar (anchor : Option Nat) (tag : Option String) (text : String) (style : Style)
  | sequence (anchor : Option Nat) (tag : Option String) (items : List Node)
  | mapping (anchor : Option Nat) (tag : Option String) (entries : List (Node × Node))
  | alias (anchor : Nat)

def Node.empty : Node :=
  .scalar none none "" .plain

/-- What is left to read, and what the tokens so far have named. -/
structure Parse where
  tokens : List Token
  handles : List (String × String) := []
  anchors : List (String × Nat) := []

abbrev ParseM := StateT Parse (Except Malformed)

namespace ParseM

def peek : ParseM (Option Token) :=
  return (← get).tokens.head?

def advance : ParseM Unit :=
  modify fun p => { p with tokens := p.tokens.tail }

def fail {α : Type} (e : Malformed) : ParseM α :=
  throw e

/-- Whether the next token is one of `stops`, or there is none. -/
def atAny (stops : List Token) : ParseM Bool := do
  match ← peek with
  | some token => return stops.contains token
  | none => return true

/-- Takes the next token if it is `token`. -/
def take (token : Token) : ParseM Bool := do
  if (← peek) = some token then
    advance
    return true
  else return false

/-- The text a tag stands for. -/
def resolveTag (handle suffix : String) : ParseM String := do
  if handle = "" then return suffix
  match (← get).handles.lookup handle with
  | some expansion => return expansion ++ suffix
  | none => fail .tag

/-- The number of a newly anchored node. -/
def nameAnchor (name : String) : ParseM Nat := do
  let p ← get
  let number := p.anchors.length
  set { p with anchors := (name, number) :: p.anchors.filter fun (n, _) => n ≠ name }
  return number

/-- The anchor and the tag before a node, in either order. -/
def properties : ParseM (Option String × Option String) := do
  let takeTag : ParseM (Option String) := do
    match ← peek with
    | some (.tag handle suffix) =>
      advance
      return some (← resolveTag handle suffix)
    | _ => return none
  let takeAnchor : ParseM (Option String) := do
    match ← peek with
    | some (.anchor name) =>
      advance
      return some name
    | _ => return none
  match ← takeAnchor with
  | some name => return (some name, ← takeTag)
  | none =>
    match ← takeTag with
    | some tag => return (← takeAnchor, some tag)
    | none => return (none, none)

end ParseM

open ParseM

mutual

/-- A node. Block collections are allowed only where `inBlock` holds, and a sequence without an
indentation of its own only for the value of a block key. -/
def readNode : (fuel : Nat) → (inBlock unindented : Bool) → ParseM Node
  | 0, _, _ => fail .tooDeep
  | fuel + 1, inBlock, unindented => do
    match ← peek with
    | some (.alias name) =>
      advance
      match (← get).anchors.lookup name with
      | some number => return .alias number
      | none => fail (.unknownAnchor name)
    | _ =>
      let (name, tag) ← properties
      let nameAnchors : ParseM (Option Nat) :=
        match name with
        | some name => some <$> nameAnchor name
        | none => return none
      match ← peek with
      | some (.scalar text style) =>
        advance
        return .scalar (← nameAnchors) tag text style
      | some .flowSequenceStart =>
        advance
        let anchor ← nameAnchors
        return .sequence anchor tag (← readFlowItems fuel true)
      | some .flowMappingStart =>
        advance
        let anchor ← nameAnchors
        return .mapping anchor tag (← readFlowEntries fuel true)
      | next =>
        if unindented && next = some .blockEntry then
          let anchor ← nameAnchors
          return .sequence anchor tag (← readUnindentedItems fuel)
        else if inBlock && next = some .blockSequenceStart then
          advance
          let anchor ← nameAnchors
          return .sequence anchor tag (← readBlockItems fuel)
        else if inBlock && next = some .blockMappingStart then
          advance
          let anchor ← nameAnchors
          return .mapping anchor tag (← readBlockEntries fuel)
        else if name.isSome || tag.isSome then
          return .scalar (← nameAnchors) tag "" .plain
        else fail .nodeExpected

/-- A node, or the empty one before one of `stops`. -/
def readNodeUnless : (fuel : Nat) → (stops : List Token) → (inBlock unindented : Bool) →
    ParseM Node
  | 0, _, _, _ => fail .tooDeep
  | fuel + 1, stops, inBlock, unindented => do
    if ← atAny stops then return .empty else readNode fuel inBlock unindented

def readBlockItems : (fuel : Nat) → ParseM (List Node)
  | 0 => fail .tooDeep
  | fuel + 1 => do
    if ← take .blockEntry then
      let item ← readNodeUnless fuel [.blockEntry, .blockEnd] true false
      return item :: (← readBlockItems fuel)
    else if ← take .blockEnd then return []
    else fail .separatorExpected

def readUnindentedItems : (fuel : Nat) → ParseM (List Node)
  | 0 => fail .tooDeep
  | fuel + 1 => do
    if ← take .blockEntry then
      let item ← readNodeUnless fuel [.blockEntry, .key, .value, .blockEnd] true false
      return item :: (← readUnindentedItems fuel)
    else return []

def readBlockEntries : (fuel : Nat) → ParseM (List (Node × Node))
  | 0 => fail .tooDeep
  | fuel + 1 => do
    if ← take .key then
      let key ← readNodeUnless fuel [.key, .value, .blockEnd] true true
      let value ←
        if ← take .value then readNodeUnless fuel [.key, .value, .blockEnd] true true
        else pure .empty
      return (key, value) :: (← readBlockEntries fuel)
    else if ← take .blockEnd then return []
    else fail .keyExpected

/-- The items of a flow sequence; a key makes an item a mapping of one entry. -/
def readFlowItems : (fuel : Nat) → (first : Bool) → ParseM (List Node)
  | 0, _ => fail .tooDeep
  | fuel + 1, first => do
    if ← take .flowSequenceEnd then return []
    else
      if !first then
        if !(← take .flowEntry) then fail .separatorExpected
      if ← take .flowSequenceEnd then return []
      else
        let item ←
          if ← take .key then
            let key ←
              if ← atAny [.value, .flowEntry, .flowSequenceEnd] then
                advance
                pure .empty
              else readNode fuel false false
            let value ←
              if ← take .value then
                readNodeUnless fuel [.flowEntry, .flowSequenceEnd] false false
              else pure .empty
            pure (.mapping none none [(key, value)])
          else readNode fuel false false
        return item :: (← readFlowItems fuel false)

def readFlowEntries : (fuel : Nat) → (first : Bool) → ParseM (List (Node × Node))
  | 0, _ => fail .tooDeep
  | fuel + 1, first => do
    if ← take .flowMappingEnd then return []
    else
      if !first then
        if !(← take .flowEntry) then fail .separatorExpected
      if ← take .flowMappingEnd then return []
      else if ← take .key then
        let key ← readNodeUnless fuel [.value, .flowEntry, .flowMappingEnd] false false
        let value ←
          if ← take .value then readNodeUnless fuel [.flowEntry, .flowMappingEnd] false false
          else pure .empty
        return (key, value) :: (← readFlowEntries fuel false)
      else
        let key ← readNode fuel false false
        return (key, .empty) :: (← readFlowEntries fuel false)

end

/-- The directives before a document. Handles may not be set twice; the two usual ones stand for
their usual texts unless they are set. -/
def readDirectives : (fuel : Nat) → (version : Bool) → (handles : List (String × String)) →
    ParseM Bool
  | 0, _, _ => fail .directive
  | fuel + 1, version, handles => do
    match ← peek with
    | some (.version major minor) =>
      if version || major ≠ 1 || (minor ≠ 1 && minor ≠ 2) then fail .directive
      else
        advance
        readDirectives fuel true handles
    | some (.handle handle expansion) =>
      if (handles.lookup handle).isSome then fail .directive
      else
        advance
        readDirectives fuel version (handles ++ [(handle, expansion)])
    | _ =>
      modify fun p =>
        { p with handles := handles ++ [("!", "!"), ("!!", "tag:yaml.org,2002:")] }
      return version || !handles.isEmpty

/-- The only document of a text; none when there is nothing in it. -/
def readDocument (fuel : Nat) : ParseM (Option Node) := do
  if (← peek).isNone then return none
  let hasDirectives ← readDirectives fuel false []
  let root ←
    if ← take .documentStart then
      match ← peek with
      | none | some .documentStart | some .documentEnd | some (.version ..) | some (.handle ..) =>
        pure .empty
      | some _ => readNode fuel true false
    else if hasDirectives then fail .directive
    else readNode fuel true false
  modify fun p => { p with tokens := p.tokens.dropWhile (· = .documentEnd) }
  if (← peek).isSome then fail .severalDocuments
  return some root

/-- The node of a text; none when the text holds no document. -/
def parse (text : String) : Except Malformed (Option Node) := do
  let tokens ← tokens text
  let (root, _) ← (readDocument (4 * tokens.length + 8)).run { tokens }
  return root

end LaunchPlan.Yaml
