import LaunchPlan.Files
import LaunchPlan.Text.Octets
import LaunchPlan.Utility.Style

/-!
# The utility `test`

Up to four arguments are read by their count, more of them as an expression with
`!`, `-a`, `-o` and parentheses.
-/

namespace LaunchPlan.Utility.Test

/-- The files seen from the current directory of a program. -/
structure View where
  tree : Tree
  style : Style

inductive Fault
  | argumentExpected (word : Octets)
  /-- Between these words an operator is missing. -/
  | operatorExpected (first second : Octets)
  | closingExpected
  | notANumber (word : Octets)
  /-- The expression ends before this word. -/
  | tooMany (last word : Octets)

def Fault.message (style : Style) : Fault → Octets
  | .argumentExpected word =>
    match style with
    | .builtin => word ++ ": argument expected".toList
    | .program => "missing argument after '".toList ++ word ++ ['\'']
  | .operatorExpected first second =>
    match style with
    | .builtin => first ++ ": unexpected operator".toList
    | .program => ['\''] ++ second ++ "': binary operator expected".toList
  | .closingExpected =>
    match style with
    | .builtin => "closing paren expected".toList
    | .program => "')' expected".toList
  | .notANumber word =>
    match style with
    | .builtin => "Illegal number: ".toList ++ word
    | .program => "invalid integer '".toList ++ word ++ ['\'']
  | .tooMany last word =>
    match style with
    | .builtin => last ++ ": unexpected operator".toList
    | .program => "extra argument '".toList ++ word ++ ['\'']

def integer (text : Octets) : Except Fault Int :=
  let trimmed := (text.dropWhile (· = ' ')).reverse.dropWhile (· = ' ') |>.reverse
  let (negative, digits) := match trimmed with
    | '-' :: ds => (true, ds)
    | '+' :: ds => (false, ds)
    | ds => (false, ds)
  if digits.isEmpty || !digits.all Char.isDigit then .error (.notANumber text)
  else
    let n : Int := (digits.foldl (fun n d => n * 10 + (d.toNat - 48)) 0 : Nat)
    .ok (if negative then -n else n)

def node? (v : View) (path : Octets) : Option Node :=
  v.tree.find? path.toText

/-- The operators with one operand. -/
def unary? (v : View) (op : Octets) : Option (Octets → Bool) :=
  match String.ofList op with
  | "-n" => some fun a => !a.isEmpty
  | "-z" => some fun a => a.isEmpty
  | "-e" | "-r" | "-w" => some fun a => (node? v a).isSome
  | "-f" => some fun a => (node? v a).any Node.isRegular
  | "-d" => some fun a => (node? v a).any Node.isDirectory
  | "-c" => some fun a => (node? v a).any fun n =>
      match n with
      | .nullDevice => true
      | _ => false
  | "-x" => some fun a => (node? v a).any Node.isExecutable
  | "-s" => some fun a => (node? v a).any fun n =>
      match n with
      | .file content _ => content.size ≠ 0
      | .nullDevice => false
      | _ => true
  | "-b" | "-g" | "-h" | "-k" | "-L" | "-p" | "-S" | "-t" | "-u" => some fun _ => false
  | _ => none

def modified (v : View) (path : Octets) : Option Nat :=
  (v.tree.modified path.toText).toOption

/-- The operators with two operands. -/
def binary? (v : View) (op : Octets) : Option (Octets → Octets → Except Fault Bool) :=
  let numbers (compare : Int → Int → Bool) : Option (Octets → Octets → Except Fault Bool) :=
    some fun a b => do
      let m ← integer a
      let n ← integer b
      return compare m n
  match String.ofList op with
  | "=" => some fun a b => .ok (a = b)
  | "==" => if v.style = .program then some fun a b => .ok (a = b) else none
  | "!=" => some fun a b => .ok (a ≠ b)
  | "<" => some fun a b => .ok (a < b)
  | ">" => some fun a b => .ok (b < a)
  | "-eq" => numbers fun m n => m = n
  | "-ne" => numbers fun m n => m ≠ n
  | "-lt" => numbers fun m n => m < n
  | "-le" => numbers fun m n => m ≤ n
  | "-gt" => numbers fun m n => n < m
  | "-ge" => numbers fun m n => n ≤ m
  | "-nt" => some fun a b => .ok (match modified v a, modified v b with
      | some s, some t => t < s
      | some _, none => true
      | none, _ => false)
  | "-ot" => some fun a b => .ok (match modified v a, modified v b with
      | some s, some t => s < t
      | none, some _ => true
      | _, none => false)
  | "-ef" => some fun a b => .ok (match v.tree.canonical a.toText, v.tree.canonical b.toText with
      | .ok s, .ok t => s = t
      | _, _ => false)
  | _ => none

mutual

/-- Terms joined by `-o`. -/
def anyOf (v : View) : (limit : Nat) → List Octets → Except Fault (Bool × List Octets)
  | 0, _ => .error .closingExpected
  | limit + 1, words => do
    let (a, rest) ← allOf v limit words
    match rest with
    | ['-', 'o'] :: rest => do
      let (b, rest) ← anyOf v limit rest
      return (a || b, rest)
    | rest => return (a, rest)

/-- Terms joined by `-a`. -/
def allOf (v : View) : (limit : Nat) → List Octets → Except Fault (Bool × List Octets)
  | 0, _ => .error .closingExpected
  | limit + 1, words => do
    let (a, rest) ← term v limit words
    match rest with
    | ['-', 'a'] :: rest => do
      let (b, rest) ← allOf v limit rest
      return (a && b, rest)
    | rest => return (a, rest)

def term (v : View) : (limit : Nat) → List Octets → Except Fault (Bool × List Octets)
  | 0, _ => .error .closingExpected
  | limit + 1, words =>
    match words with
    | [] => if v.style = .builtin then .ok (false, []) else .error (.argumentExpected [])
    | ['!'] :: rest => do
      let (a, rest) ← term v limit rest
      return (!a, rest)
    | a :: rest =>
      match rest with
      | op :: b :: after =>
        match binary? v op with
        | some compare => do return (← compare a b, after)
        | none => single v limit a rest
      | _ => single v limit a rest

/-- A term that no operator between two operands makes. -/
def single (v : View) : (limit : Nat) → Octets → List Octets → Except Fault (Bool × List Octets)
  | 0, _, _ => .error .closingExpected
  | limit + 1, a, rest =>
    if a = ['('] then do
      let (b, rest) ← anyOf v limit rest
      match rest with
      | [')'] :: rest => return (b, rest)
      | _ => .error .closingExpected
    else
      match unary? v a, rest with
      | some check, b :: rest => .ok (check b, rest)
      | some _, [] => .ok (true, [])
      | none, rest => .ok (!a.isEmpty, rest)

end

def expression (v : View) (words : List Octets) : Except Fault Bool := do
  match ← anyOf v (4 * words.length + 4) words with
  | (b, []) => return b
  | (_, word :: rest) =>
    .error (.tooMany (words[words.length - rest.length - 2]?.getD []) word)

/-- Whether a list of words holds. -/
def holds (v : View) : List Octets → Except Fault Bool
  | [] => .ok false
  | [a] => .ok (!a.isEmpty)
  | [['!'], a] => .ok a.isEmpty
  | [op, a] =>
    match unary? v op with
    | some check => .ok (check a)
    | none =>
      if v.style = .program || (binary? v a).isSome then .error (.argumentExpected a)
      else .error (.operatorExpected op a)
  | [a, op, b] =>
    match binary? v op with
    | some compare => compare a b
    | none =>
      if v.style = .builtin then expression v [a, op, b]
      else if a = ['!'] then (holds v [op, b]).map (!·)
      else if a = ['('] && b = [')'] then .ok (!op.isEmpty)
      else if op = ['-', 'a'] then .ok (!a.isEmpty && !b.isEmpty)
      else if op = ['-', 'o'] then .ok (!a.isEmpty || !b.isEmpty)
      else .error (.operatorExpected a op)
  | words => expression v words

end LaunchPlan.Utility.Test
