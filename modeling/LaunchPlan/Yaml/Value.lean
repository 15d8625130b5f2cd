import LaunchPlan.Json.Text
import LaunchPlan.Number.Binary64
import LaunchPlan.Yaml.Node

/-!
# Values of a YAML document

What the nodes of a document mean. Plain scalars that look like one are nulls,
booleans or numbers, all others texts. A local tag is kept with its value. The
keys of a mapping are distinct.
-/

namespace LaunchPlan.Yaml

open Number (Binary64 Decimal DecimalFormat)

inductive Value
  | null
  | bool (b : Bool)
  | int (i : Int)
  | float (f : Binary64)
  | string (text : String)
  | sequence (items : List Value)
  | mapping (entries : List (Value × Value))
  | tagged (tag : String) (value : Value)

/-- A number with at least one digit, all of them digits of the base. -/
def natIn? (base : Nat) (digits : List Char) : Option Nat :=
  if digits.isEmpty then none
  else digits.foldlM (fun n c =>
    match hexValue? c with
    | some d => if d < base then some (n * base + d) else none
    | none => none) 0

/-- Digits behind a leading zero, which make a text and not a number. -/
def isZeroPadded (cs : List Char) : Bool :=
  let unsigned := match cs with
    | '-' :: rest | '+' :: rest => rest
    | _ => cs
  match unsigned with
  | '0' :: rest => !rest.isEmpty && rest.all Char.isDigit
  | _ => false

/-- A whole number without its sign; the base may be marked by `0x`, `0o` or `0b`. -/
def magnitude? (cs : List Char) : Option Nat :=
  match cs with
  | '0' :: 'x' :: rest => natIn? 16 rest
  | '0' :: 'o' :: rest => natIn? 8 rest
  | '0' :: 'b' :: rest => natIn? 2 rest
  | _ => if isZeroPadded cs then none else natIn? 10 cs

/-- A whole number of any size. -/
def int? (cs : List Char) : Option Int :=
  match cs with
  | '-' :: rest => (magnitude? rest).map fun n => -(n : Int)
  | '+' :: rest => (magnitude? rest).map Int.ofNat
  | _ => (magnitude? cs).map Int.ofNat

/-- The digits and the scale of a decimal number without its sign. -/
def decimal? (cs : List Char) : Option (Nat × Int) :=
  let (whole, rest) := cs.span Char.isDigit
  let (fraction, rest) := match rest with
    | '.' :: more => more.span Char.isDigit
    | _ => ([], rest)
  let exponent : Option Int :=
    match rest with
    | [] => some 0
    | e :: more =>
      if e = 'e' || e = 'E' then
        match more with
        | '-' :: digits => (natIn? 10 digits).map fun n => -(n : Int)
        | '+' :: digits => (natIn? 10 digits).map Int.ofNat
        | digits => (natIn? 10 digits).map Int.ofNat
      else none
  match natIn? 10 (whole ++ fraction), exponent with
  | some n, some e => some (n, e - fraction.length)
  | _, _ => none

def floatOf (negative : Bool) (cs : List Char) : Option Binary64 := do
  let (digits, scale) ← decimal? cs
  let (mantissa, exponent) ← Binary64.ofDecimal digits scale
  some (.finite negative mantissa exponent)

/-- A floating point number; a decimal that is too large is none. -/
def float? (cs : List Char) : Option Binary64 :=
  match String.ofList cs with
  | ".inf" | ".Inf" | ".INF" | "+.inf" | "+.Inf" | "+.INF" => some (.infinite false)
  | "-.inf" | "-.Inf" | "-.INF" => some (.infinite true)
  | ".nan" | ".NaN" | ".NAN" => some .nan
  | _ =>
    match cs with
    | '-' :: rest => floatOf true rest
    | '+' :: rest => floatOf false rest
    | _ => floatOf false cs

def bool? (text : String) : Option Bool :=
  match text with
  | "true" | "True" | "TRUE" => some true
  | "false" | "False" | "FALSE" => some false
  | _ => none

def isNull (text : String) : Bool :=
  text = "null" || text = "Null" || text = "NULL" || text = "~"

/-- A whole number as a value, none when the text is no whole number or one of more than 128 bits.
One of more than 64 bits cannot be held. -/
def intValue? (text : String) : Except Malformed (Option Value) :=
  match int? text.toList with
  | none => .ok none
  | some i =>
    if -9223372036854775808 ≤ i ∧ i < 18446744073709551616 then .ok (some (.int i))
    else if -170141183460469231731687303715884105728 ≤ i ∧ i < 340282366920938463463374607431768211456 then .error (.number text)
    else .ok none

/-- The value of a plain scalar. -/
def plainValue (text : String) : Except Malformed Value := do
  if text = "" || isNull text then return .null
  if let some b := bool? text then return .bool b
  if let some v := ← intValue? text then return v
  if !isZeroPadded text.toList then
    if let some f := float? text.toList then return .float f
  return .string text

/-- The value of a scalar with one of the tags for scalars of the standard, a text for other tags. -/
def standardValue (tag text : String) : Except Malformed Value := do
  match tag with
  | "tag:yaml.org,2002:bool" =>
    match bool? text with
    | some b => return .bool b
    | none => .error .tag
  | "tag:yaml.org,2002:int" =>
    match ← intValue? text with
    | some v => return v
    | none => .error .tag
  | "tag:yaml.org,2002:float" =>
    match float? text.toList with
    | some f => return .float f
    | none => .error .tag
  | "tag:yaml.org,2002:null" => if isNull text then return .null else .error .tag
  | _ => return .string text

/-- The name of a local tag, without its mark unless that is all there is. -/
def localTag? (tag : Option String) : Option String := do
  match (← tag).toList with
  | ['!'] => some "!"
  | '!' :: name => some (String.ofList name)
  | _ => none

namespace Value

/-- Whether two keys are the same; the order of a mapping does not count. -/
def same : (fuel : Nat) → Value → Value → Bool
  | 0, _, _ => false
  | fuel + 1, a, b =>
    match a, b with
    | null, null => true
    | bool x, bool y => x = y
    | int x, int y => x = y
    | float x, float y => x.same y
    | string x, string y => x = y
    | sequence xs, sequence ys =>
      xs.length = ys.length && (xs.zip ys).all fun (x, y) => same fuel x y
    | mapping xs, mapping ys =>
      xs.length = ys.length && xs.all fun (k, v) =>
        ys.any fun (l, w) => same fuel k l && same fuel v w
    | tagged s x, tagged t y => s = t && same fuel x y
    | _, _ => false

/-- How deeply collections may be nested. -/
def maxDepth : Nat := 128

end Value

/-- The anchored nodes in a node, by number, in document order. -/
def Node.anchored : (fuel : Nat) → Node → List (Nat × Node)
  | 0, _ => []
  | fuel + 1, node =>
    match node with
    | .scalar anchor .. => (anchor.map fun a => (a, node)).toList
    | .sequence anchor _ items =>
      (anchor.map fun a => (a, node)).toList ++ items.flatMap (anchored fuel)
    | .mapping anchor _ entries =>
      (anchor.map fun a => (a, node)).toList ++
        entries.flatMap fun (k, v) => anchored fuel k ++ anchored fuel v
    | .alias _ => []

/-- How many starts, ends and scalars a node is written with. -/
def Node.eventCount : (fuel : Nat) → Node → Nat
  | 0, _ => 0
  | fuel + 1, node =>
    match node with
    | .scalar .. | .alias _ => 1
    | .sequence _ _ items => (items.map (eventCount fuel)).sum + 2
    | .mapping _ _ entries =>
      (entries.map fun (k, v) => eventCount fuel k + eventCount fuel v).sum + 2

/-- What building values depends on: the anchored nodes, and how many aliases may be followed. -/
structure Anchors where
  nodes : List (Nat × Node)
  limit : Nat

/-- The state counts the aliases followed so far. -/
abbrev BuildM := StateT Nat (Except Malformed)

def Anchors.follow (anchors : Anchors) : Node → BuildM Node
  | .alias number => do
    let count := (← get) + 1
    set count
    if anchors.limit < count then throw .tooManyRepetitions
    match anchors.nodes.reverse.lookup number with
    | some node => return node
    | none => throw (.unknownAnchor (toString number))
  | node => return node

/-- The value of a node. Collections may be nested `depth` levels deep. -/
def buildValue (anchors : Anchors) : (depth : Nat) → Node → BuildM Value
  | depth, node => do
    let node ← anchors.follow node
    let tag := match node with
      | .scalar _ tag .. | .sequence _ tag _ | .mapping _ tag _ => tag
      | .alias _ => none
    let value ←
      match node, depth with
      | .scalar _ none text .plain, _ => plainValue text
      | .scalar _ none text _, _ => pure (.string text)
      | .scalar _ (some t) text style, _ =>
        if (localTag? tag).isSome then
          if style = .plain then plainValue text else pure (.string text)
        else standardValue t text
      | .sequence _ _ items, depth + 1 => .sequence <$> items.mapM (buildValue anchors depth)
      | .mapping _ _ entries, depth + 1 => do
        let entry (done : List (Value × Value)) : Node × Node → BuildM (List (Value × Value))
          | (k, v) => do
            let key ← buildValue anchors depth k
            if done.any fun (l, _) => key.same (2 * Value.maxDepth) l then throw .duplicateKey
            else return done ++ [(key, ← buildValue anchors depth v)]
        .mapping <$> entries.foldlM entry []
      | _, _ => throw .tooDeep
    match localTag? tag with
    | some name => return .tagged name value
    | none => return value

/-- The value of a text. -/
def read (text : String) : Except Malformed Value := do
  match ← parse text with
  | none => return .null
  | some root =>
    let fuel := text.length + 2
    let anchors := ⟨root.anchored fuel, 100 * root.eventCount fuel⟩
    return (← (buildValue anchors Value.maxDepth root).run 0).1

/-- Numbers in parameters: small and large ones get an exponent without a plus sign. -/
def plainFormat : DecimalFormat :=
  { least := -5, most := 16, plus := "", exponentDigits := 1 }

/-- Numbers in JSON: an exponent has a sign and at least two digits. -/
def jsonFormat : DecimalFormat :=
  { least := -5, most := 16, plus := "+", exponentDigits := 2 }

def signed (negative : Bool) (text : String) : String :=
  if negative then "-" ++ text else text

/-- A floating point number as text. -/
def floatText : Binary64 → String
  | .finite negative m e => signed negative (plainFormat.write (Decimal.ofBinary m e))
  | .infinite negative => signed negative ".inf"
  | .nan => ".nan"

/-- A tag with its mark. -/
def tagText (tag : String) : String :=
  "!" ++ tag

mutual

/-- A value with the names of its parts spelt out. -/
def describe : Value → String
  | .null => "Null"
  | .bool b => "Bool(" ++ toString b ++ ")"
  | .int i => "Number(" ++ toString i ++ ")"
  | .float f => "Number(" ++ floatText f ++ ")"
  | .string text => "String(" ++ Text.listed text ++ ")"
  | .sequence items => "Sequence [" ++ ", ".intercalate (describeAll items) ++ "]"
  | .mapping entries => "Mapping \x7b" ++ ", ".intercalate (describeEntries entries) ++ "\x7d"
  | .tagged tag value =>
    "TaggedValue \x7b tag: " ++ tagText tag ++ ", value: " ++ describe value ++ " \x7d"

def describeAll : List Value → List String
  | [] => []
  | value :: rest => describe value :: describeAll rest

def describeEntries : List (Value × Value) → List String
  | [] => []
  | (key, value) :: rest => (describeKey key ++ ": " ++ describe value) :: describeEntries rest

/-- A key; simple ones are shown without their kind. -/
def describeKey : Value → String
  | .bool b => toString b
  | .int i => toString i
  | .float f => floatText f
  | .string text => Text.listed text
  | .null => "Null"
  | .sequence items => "Sequence [" ++ ", ".intercalate (describeAll items) ++ "]"
  | .mapping entries => "Mapping \x7b" ++ ", ".intercalate (describeEntries entries) ++ "\x7d"
  | .tagged tag value =>
    "TaggedValue \x7b tag: " ++ tagText tag ++ ", value: " ++ describe value ++ " \x7d"

end

/-- A number in JSON, which has none for what is not finite. -/
def jsonFloat? : Binary64 → Option String
  | .finite negative m e => some (signed negative (jsonFormat.write (Decimal.ofBinary m e)))
  | _ => none

/-- A key in JSON, none for the keys that JSON cannot have. -/
def jsonKey? : Value → Option String
  | .bool b => some (Json.quote (toString b))
  | .int i => some (Json.quote (toString i))
  | .float f => (jsonFloat? f).map fun text => "\"" ++ text ++ "\""
  | .string text => some (Json.quote text)
  | _ => none

mutual

/-- A value as JSON without blanks, none when a key in it cannot be written. -/
def json? : Value → Option String
  | .null => some "null"
  | .bool b => some (toString b)
  | .int i => some (toString i)
  | .float f => some ((jsonFloat? f).getD "null")
  | .string text => some (Json.quote text)
  | .sequence items => do some ("[" ++ ",".intercalate (← jsonItems? items) ++ "]")
  | .mapping entries => do some ("\x7b" ++ ",".intercalate (← jsonEntries? entries) ++ "\x7d")
  | .tagged tag value => do
    some ("\x7b" ++ Json.quote (tagText tag) ++ ":" ++ (← json? value) ++ "\x7d")

def jsonItems? : List Value → Option (List String)
  | [] => some []
  | value :: rest => do return (← json? value) :: (← jsonItems? rest)

def jsonEntries? : List (Value × Value) → Option (List String)
  | [] => some []
  | (key, value) :: rest => do
    return ((← jsonKey? key) ++ ":" ++ (← json? value)) :: (← jsonEntries? rest)

end

end LaunchPlan.Yaml
