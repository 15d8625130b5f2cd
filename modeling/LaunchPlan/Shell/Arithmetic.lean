import LaunchPlan.Text.Octets

/-!
# Arithmetic expressions

Whole numbers of 64 bits with the operators of C. Names stand for the values of
variables, unset ones for zero; they may be assigned to.
-/

namespace LaunchPlan.Shell.Arithmetic

/-- The variables, those assigned last in front, and the text that is left. -/
structure State where
  rest : Octets
  assigned : List (Octets × Octets) := []

/-- Why there is no value. -/
inductive Fault
  | wrong (said : String)
  /-- The value of a variable is no number. -/
  | notANumber (value : Octets)

/-- What is said of a fault in the expression `text`. -/
def Fault.message (text : Octets) : Fault → Octets
  | wrong said => ("arithmetic expression: " ++ said ++ ": \"").toList ++ text ++ ['"']
  | notANumber value => "Illegal number: ".toList ++ value

abbrev Calculating := StateT State (Except Fault)

/-- A number brought into the range of 64 bits. -/
def wrap (n : Int) : Int :=
  Int.bmod n 18446744073709551616

def skipSpaces : Calculating Unit :=
  modify fun s => { s with rest := s.rest.dropWhile fun c => c = ' ' || c = '\t' || c = '\n' }

/-- Takes the sign `op`, unless a longer operator begins there. -/
def accept (op : String) (notBefore : List Char) : Calculating Bool := do
  skipSpaces
  let s ← get
  if op.toList.isPrefixOf s.rest && !((s.rest.drop op.length).head?.any (· ∈ notBefore)) then
    set { s with rest := s.rest.drop op.length }
    return true
  else return false

def digitValue (c : Char) : Nat :=
  if c.isDigit then c.toNat - 48 else if c.isAlpha then c.toLower.toNat - 87 else 99

/-- The number that a text begins with, in the base that its first characters say, and the rest. -/
def numeral (cs : Octets) : Nat × Octets :=
  let inBase (base : Nat) (cs : Octets) : Nat × Octets :=
    let digits := cs.takeWhile fun c => digitValue c < base
    (digits.foldl (fun n c => n * base + digitValue c) 0, cs.drop digits.length)
  match cs with
  | '0' :: x :: d :: rest =>
    if (x = 'x' || x = 'X') && digitValue d < 16 then inBase 16 (d :: rest)
    else inBase 8 (x :: d :: rest)
  | '0' :: rest => inBase 8 rest
  | cs => inBase 10 cs

def greatest : Nat := 9223372036854775807

/-- The value of a text as a signed number. -/
def valueOf (text : Octets) : Except Fault Int :=
  let isBlank (c : Char) : Bool := c = ' ' || ('\t' ≤ c && c ≤ '\r')
  let trimmed := text.dropWhile isBlank
  let (negative, digits) := match trimmed with
    | '-' :: ds => (true, ds)
    | '+' :: ds => (false, ds)
    | ds => (false, ds)
  let (n, rest) := numeral digits
  if trimmed.isEmpty then .ok 0
  else if !(digits.head?.any Char.isDigit) || !rest.all isBlank || greatest < n then
    .error (.notANumber text)
  else .ok (if negative then -n else n)

/-- The operators of each level, from the loosest on, with the characters that would make another
operator of them. -/
def levels : List (List (String × List Char)) :=
  [[("||", [])], [("&&", [])], [("|", ['|', '='])], [("^", ['='])], [("&", ['&', '='])],
    [("==", []), ("!=", [])], [("<=", []), (">=", []), ("<", ['<']), (">", ['>'])],
    [("<<", ['=']), (">>", ['='])], [("+", ['=']), ("-", ['='])],
    [("*", ['=']), ("/", ['=']), ("%", ['='])]]

def truth (b : Bool) : Int :=
  if b then 1 else 0

/-- The bits of a number, as a natural one. -/
def bits (n : Int) : Nat :=
  (n % 18446744073709551616).toNat

def apply (op : String) (a b : Int) : Except Fault Int :=
  match op with
  | "||" => .ok (truth (a ≠ 0 || b ≠ 0))
  | "&&" => .ok (truth (a ≠ 0 && b ≠ 0))
  | "|" => .ok (wrap (bits a ||| bits b : Nat))
  | "^" => .ok (wrap (bits a ^^^ bits b : Nat))
  | "&" => .ok (wrap (bits a &&& bits b : Nat))
  | "==" => .ok (truth (a = b))
  | "!=" => .ok (truth (a ≠ b))
  | "<=" => .ok (truth (a ≤ b))
  | ">=" => .ok (truth (b ≤ a))
  | "<" => .ok (truth (a < b))
  | ">" => .ok (truth (b < a))
  | "<<" => .ok (wrap (a * Nat.pow 2 (bits b % 64)))
  | ">>" => .ok (a / Nat.pow 2 (bits b % 64))
  | "+" => .ok (wrap (a + b))
  | "-" => .ok (wrap (a - b))
  | "*" => .ok (wrap (a * b))
  | "/" => if b = 0 then .error (.wrong "division by zero") else .ok (wrap (a.tdiv b))
  | "%" => if b = 0 then .error (.wrong "division by zero") else .ok (wrap (a.tmod b))
  | _ => .ok b

/-- The operator of a level that comes next. -/
def nextOperator : List (String × List Char) → Calculating (Option String)
  | [] => return none
  | (op, notBefore) :: ops => do
    if ← accept op notBefore then return some op else nextOperator ops

def assignmentOperators : List (String × String × List Char) :=
  [("=", "=", ['=']), ("+=", "+", []), ("-=", "-", []), ("*=", "*", []), ("/=", "/", []),
    ("%=", "%", []), ("<<=", "<<", []), (">>=", ">>", []), ("&=", "&", []), ("|=", "|", []),
    ("^=", "^", [])]

def nextAssignment : List (String × String × List Char) → Calculating (Option String)
  | [] => return none
  | (sign, op, notBefore) :: ops => do
    if ← accept sign notBefore then return some op else nextAssignment ops

variable (lookup : Octets → Option Octets)

def variableValue (name : Octets) : Calculating Int := do
  let s ← get
  let value := (s.assigned.lookup name <|> lookup name).getD []
  match valueOf value with
  | .ok n => return n
  | .error fault => throw fault

mutual

/-- A condition with its two outcomes, or what is looser than all operators. -/
def choice : (limit : Nat) → Calculating Int
  | 0 => throw (.wrong "expression too long")
  | limit + 1 => do
    let condition ← level limit levels
    if ← accept "?" [] then
      let a ← choice limit
      if !(← accept ":" []) then throw (.wrong "expecting ':'")
      let b ← choice limit
      return if condition ≠ 0 then a else b
    else return condition

/-- What the operators of the first level join. -/
def level : (limit : Nat) → List (List (String × List Char)) → Calculating Int
  | 0, _ => throw (.wrong "expression too long")
  | limit + 1, [] => operand limit
  | limit + 1, ops :: tighter => do further limit ops tighter (← level limit tighter)

/-- What the operators of a level join to `first`. -/
def further : (limit : Nat) → List (String × List Char) → List (List (String × List Char)) → Int →
    Calculating Int
  | 0, _, _, _ => throw (.wrong "expression too long")
  | limit + 1, ops, tighter, first => do
    match ← nextOperator ops with
    | none => return first
    | some op => do
      let second ← level limit tighter
      match apply op first second with
      | .ok n => further limit ops tighter n
      | .error e => throw e

/-- A number, a name, or an expression in parentheses or with a sign. -/
def operand : (limit : Nat) → Calculating Int
  | 0 => throw (.wrong "expression too long")
  | limit + 1 => do
    if ← accept "(" [] then
      let n ← choice limit
      if ← accept ")" [] then return n else throw (.wrong "expecting ')'")
    else if ← accept "-" [] then return wrap (-(← operand limit))
    else if ← accept "+" [] then operand limit
    else if ← accept "!" [] then return truth ((← operand limit) = 0)
    else if ← accept "~" [] then return -(← operand limit) - 1
    else
      let s ← get
      match s.rest.takeWhile fun c => c.isAlphanum || c = '_' with
      | [] => throw (.wrong "expecting primary")
      | c :: word =>
        if c.isDigit then do
          let (n, rest) := numeral s.rest
          set { s with rest }
          return (min n greatest : Nat)
        else
          let word := c :: word
          set { s with rest := s.rest.drop word.length }
          match ← nextAssignment assignmentOperators with
          | none => variableValue lookup word
          | some op => do
            let value ← choice limit
            let n ← if op = "=" then pure value
              else match apply op (← variableValue lookup word) value with
                | .ok n => pure n
                | .error e => throw e
            modify fun s => { s with assigned := (word, (toString n).toList) :: s.assigned }
            return n

end

/-- The value of an expression, and the variables it assigns to, the last first. -/
def evaluate (text : Octets) : Except Fault (Int × List (Octets × Octets)) := do
  let whole : Calculating Int := do
    skipSpaces
    if (← get).rest.isEmpty then return 0
    else
      let n ← choice lookup (32 * text.length + 32)
      skipSpaces
      if (← get).rest.isEmpty then return n else throw (.wrong "expecting EOF")
  let (n, s) ← whole.run { rest := text }
  return (n, s.assigned)

end LaunchPlan.Shell.Arithmetic
