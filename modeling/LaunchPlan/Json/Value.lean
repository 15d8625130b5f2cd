import LaunchPlan.Json.Text

/-!
# JSON values

Values with their members in order, and their text over several lines: every
item stands on a line of its own, two blanks further in than what it is in.
-/

namespace LaunchPlan.Json

inductive Value
  | null
  | bool (b : Bool)
  /-- A number, as it is written. -/
  | number (text : String)
  | string (text : String)
  | array (items : List Value)
  | object (members : List (String × Value))
  /-- A string with half of a surrogate pair, or an object with such a key. -/
  | broken

/-- A new line that begins `depth` levels in. -/
def newLine (depth : Nat) : List Char :=
  '\n' :: List.replicate (2 * depth) ' '

mutual

/-- The text of a value that stands `depth` levels in. -/
def write (depth : Nat) : Value → List Char
  | .null => ['n', 'u', 'l', 'l']
  | .bool true => ['t', 'r', 'u', 'e']
  | .bool false => ['f', 'a', 'l', 's', 'e']
  | .number text => text.toList
  | .string text => quoteChars text.toList
  | .array [] => ['[', ']']
  | .array (item :: items) =>
    '[' :: newLine (depth + 1) ++ write (depth + 1) item ++ writeItems (depth + 1) items ++
      newLine depth ++ [']']
  | .object [] => ['\x7b', '\x7d']
  | .object ((key, value) :: members) =>
    '\x7b' :: newLine (depth + 1) ++ quoteChars key.toList ++ [':', ' '] ++
      write (depth + 1) value ++ writeMembers (depth + 1) members ++ newLine depth ++ ['\x7d']
  | .broken => []

/-- The further items of an array. -/
def writeItems (depth : Nat) : List Value → List Char
  | [] => []
  | item :: items => ',' :: newLine depth ++ write depth item ++ writeItems depth items

/-- The further members of an object. -/
def writeMembers (depth : Nat) : List (String × Value) → List Char
  | [] => []
  | (key, value) :: members =>
    ',' :: newLine depth ++ quoteChars key.toList ++ [':', ' '] ++ write depth value ++
      writeMembers depth members

end

namespace Value

def text (value : Value) : String :=
  String.ofList (write 0 value)

def ofOption : Option String → Value
  | none => null
  | some text => string text

def ofTexts (texts : List String) : Value :=
  array (texts.map string)

/-- Pairs of texts, each as an array of two. -/
def ofPairs (pairs : List (String × String)) : Value :=
  array (pairs.map fun (a, b) => array [string a, string b])

end Value

end LaunchPlan.Json
