import LaunchPlan.Text.Octets

/-!
# Patterns

Patterns of the shell: `*`, `?` and bracketed sets, where they are not quoted.
-/

namespace LaunchPlan.Shell

/-- A text whose characters know whether they are quoted. -/
abbrev Marked := List (Char × Bool)

inductive PatternItem
  | one (c : Char)
  | any
  | star
  | oneOf (negated : Bool) (ranges : List (Char × Char))
  deriving DecidableEq, Repr

abbrev Pattern := List PatternItem

namespace Pattern

/-- The characters of a class. -/
def class? (name : String) : Option (List (Char × Char)) :=
  match name with
  | "alpha" => some [('A', 'Z'), ('a', 'z')]
  | "digit" => some [('0', '9')]
  | "alnum" => some [('0', '9'), ('A', 'Z'), ('a', 'z')]
  | "upper" => some [('A', 'Z')]
  | "lower" => some [('a', 'z')]
  | "space" => some [('\t', '\r'), (' ', ' ')]
  | "blank" => some [('\t', '\t'), (' ', ' ')]
  | "punct" => some [('!', '/'), (':', '@'), ('[', '\x60'), ('\x7b', '~')]
  | "print" => some [(' ', '~')]
  | "graph" => some [('!', '~')]
  | "cntrl" => some [('\x00', '\x1f'), ('\x7f', '\x7f')]
  | "xdigit" => some [('0', '9'), ('A', 'F'), ('a', 'f')]
  | _ => none

/-- The class that a text begins with, and what follows it. -/
def leadingClass? (cs : Marked) : Option (List (Char × Char) × Marked) :=
  match cs with
  | ('[', _) :: (':', _) :: cs =>
    let name := cs.takeWhile fun (c, _) => c.isAlpha
    match class? (String.ofList (name.map Prod.fst)), cs.drop name.length with
    | some ranges, (':', _) :: (']', _) :: rest => some (ranges, rest)
    | _, _ => none
  | _ => none

/-- The ranges up to a closing bracket, `a-z` being one, and what follows it. -/
def ranges : (limit : Nat) → Marked → Option (List (Char × Char) × Marked)
  | 0, _ => none
  | limit + 1, cs =>
    let further (first : List (Char × Char)) (rest : Marked) :=
      (ranges limit rest).map fun (more, rest) => (first ++ more, rest)
    match leadingClass? cs, cs with
    | some (first, rest), _ => further first rest
    | none, (']', false) :: rest => some ([], rest)
    | none, (a, _) :: ('-', q) :: (b, r) :: rest =>
      if b = ']' && !r then further [(a, a)] (('-', q) :: (b, r) :: rest) else further [(a, b)] rest
    | none, (a, _) :: rest => further [(a, a)] rest
    | none, [] => none

/-- The set after an opening bracket, and what follows it. -/
def bracket? (cs : Marked) : Option (PatternItem × Marked) :=
  let (negated, cs) := match cs with
    | ('!', false) :: cs => (true, cs)
    | cs => (false, cs)
  let cs := match cs with
    | (']', _) :: cs => (']', true) :: cs
    | cs => cs
  (ranges (cs.length + 1) cs).map fun (ranges, rest) => (.oneOf negated ranges, rest)

def ofMarkedFrom : (limit : Nat) → Marked → Pattern
  | 0, _ => []
  | limit + 1, cs =>
    match cs with
    | [] => []
    | ('*', false) :: cs => .star :: ofMarkedFrom limit cs
    | ('?', false) :: cs => .any :: ofMarkedFrom limit cs
    | ('[', false) :: cs =>
      match bracket? cs with
      | some (item, rest) => item :: ofMarkedFrom limit rest
      | none => .one '[' :: ofMarkedFrom limit cs
    | (c, _) :: cs => .one c :: ofMarkedFrom limit cs

/-- The pattern that a text writes. -/
def ofMarked (cs : Marked) : Pattern :=
  ofMarkedFrom cs.length cs

/-- The ends of a text, the longest first. -/
def tails : Octets → List Octets
  | [] => [[]]
  | c :: cs => (c :: cs) :: tails cs

def accepts : Pattern → Octets → Bool
  | [], cs => cs.isEmpty
  | .star :: items, cs => (tails cs).any (accepts items)
  | .any :: items, _ :: cs => accepts items cs
  | .one c :: items, d :: cs => c = d && accepts items cs
  | .oneOf negated ranges :: items, d :: cs =>
    ((ranges.any fun (a, b) => a ≤ d && d ≤ b) != negated) && accepts items cs
  | _, [] => false

/-- Whether the text has a character that makes it a pattern. -/
def isPattern (cs : Marked) : Bool :=
  cs.any fun (c, quoted) => !quoted && (c = '*' || c = '?' || c = '[')

/-- The value without the shortest or longest beginning, or end, that matches. -/
def trim (pattern : Pattern) (atEnd longest : Bool) (value : Octets) : Octets :=
  let lengths := List.range (value.length + 1)
  let lengths := if longest then lengths.reverse else lengths
  let fits (n : Nat) : Bool :=
    if atEnd then pattern.accepts (value.drop (value.length - n)) else pattern.accepts (value.take n)
  match lengths.find? fits with
  | none => value
  | some n => if atEnd then value.take (value.length - n) else value.drop n

end Pattern

end LaunchPlan.Shell
