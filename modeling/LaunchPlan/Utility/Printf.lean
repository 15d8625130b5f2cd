import LaunchPlan.Number.Binary64
import LaunchPlan.Text.Listing
import LaunchPlan.Utility.Escape

/-!
# The utility `printf`

The format is applied again as long as arguments are left and it takes any. A
missing argument is empty or zero. Numbers that cannot be read count as far as
they can be, and make the exit code 1. An unknown directive ends the output.
-/

namespace LaunchPlan.Utility.Printf

/-- What has been printed, the arguments that are left, and the complaints so far. -/
structure State where
  out : Octets := []
  arguments : List Octets
  complaints : List Octets := []
  stopped : Bool := false
  /-- A directive is unknown. -/
  failed : Bool := false

/-- How a value is laid out. -/
structure Layout where
  left : Bool := false
  plus : Bool := false
  space : Bool := false
  alternate : Bool := false
  zero : Bool := false
  width : Nat := 0
  precision : Option Nat := none

def pad (l : Layout) (text : Octets) : Octets :=
  let fill := List.replicate (l.width - text.length) ' '
  if l.left then text ++ fill else fill ++ text

/-- A number with its sign and prefix in front of its digits. -/
def number (l : Layout) (front digits : Octets) (zeros : Bool) : Octets :=
  let digits := List.replicate (l.precision.getD 0 - digits.length) '0' ++ digits
  if l.zero && !l.left && zeros then
    front ++ List.replicate (l.width - front.length - digits.length) '0' ++ digits
  else pad l (front ++ digits)

def signOf (l : Layout) (negative : Bool) : Octets :=
  if negative then ['-'] else if l.plus then ['+'] else if l.space then [' '] else []

def decimal (l : Layout) (n : Int) : Octets :=
  let digits := if n = 0 && l.precision = some 0 then [] else Text.digitsIn 10 n.natAbs
  number l (signOf l (n < 0)) digits l.precision.isNone

/-- The number of values that an unsigned number can have. -/
def span : Nat := 18446744073709551616

def unsigned (l : Layout) (base : Nat) (upper : Bool) (n : Int) : Octets :=
  let value := (n % span).toNat
  let digits := if value = 0 && l.precision = some 0 then [] else Text.digitsIn base value
  let digits := if upper then digits.map Char.toUpper else digits
  let front : Octets :=
    if !l.alternate || value = 0 then []
    else if base = 16 then (if upper then ['0', 'X'] else ['0', 'x'])
    else if base = 8 then ['0'] else []
  number l front digits l.precision.isNone

/-- How a number that need not be whole is written. -/
inductive Notation
  /-- With a fixed count of decimals. -/
  | fixed
  /-- With one digit in front of the point and an exponent of ten. -/
  | scientific
  /-- As `fixed` if the exponent is small, without zeros at the end. -/
  | shorter
  deriving DecidableEq, Repr

/-- Digits with a point in front of the last `places` of them. -/
def pointed (l : Layout) (places : Nat) (trimmed : Bool) (n : Nat) : Octets :=
  let scale := Nat.pow 10 places
  let part := Text.digitsIn 10 (n % scale)
  let part := if places = 0 then [] else List.replicate (places - part.length) '0' ++ part
  let part := if trimmed then (part.reverse.dropWhile (· = '0')).reverse else part
  Text.digitsIn 10 (n / scale) ++ if part.isEmpty && !l.alternate then [] else '.' :: part

/-- A fraction multiplied with a power of ten and rounded, a half going to the even neighbour. -/
def scaled (num den : Nat) (power : Int) : Nat :=
  if 0 ≤ power then Number.Binary64.roundDiv (num * Nat.pow 10 power.toNat) den
  else Number.Binary64.roundDiv num (den * Nat.pow 10 (-power).toNat)

/-- A fraction in `places + 1` digits, and the exponent of ten of the first of them. -/
def leading (num den places : Nat) : Nat × Int :=
  let digitCount (n : Nat) : Int := (Text.digitsIn 10 n).length
  let exponent : Int :=
    if den ≤ num then digitCount (num / den) - 1
    else
      let k := digitCount (den / num) - 1
      if den ≤ num * Nat.pow 10 k.toNat then -k else -k - 1
  if num = 0 then (0, 0)
  else
    let digits := scaled num den (places - exponent)
    if digits = Nat.pow 10 (places + 1) then (Nat.pow 10 places, exponent + 1) else (digits, exponent)

def exponentText (upper : Bool) (exponent : Int) : Octets :=
  let digits := Text.digitsIn 10 exponent.natAbs
  [if upper then 'E' else 'e', if exponent < 0 then '-' else '+'] ++
    List.replicate (2 - digits.length) '0' ++ digits

/-- A fraction in one of the notations. -/
def fraction (l : Layout) (form : Notation) (upper negative : Bool) (num den : Nat) : Octets :=
  let places := l.precision.getD 6
  let scientific (places : Nat) (trimmed : Bool) : Octets :=
    let (digits, exponent) := leading num den places
    pointed l places trimmed digits ++ exponentText upper exponent
  let body := match form with
    | .fixed => pointed l places false (scaled num den places)
    | .scientific => scientific places false
    | .shorter =>
      let count := max places 1
      let (_, exponent) := leading num den (count - 1)
      let trimmed := !l.alternate
      if -4 ≤ exponent && exponent < count then
        let places := (count - 1 - exponent).toNat
        pointed l places trimmed (scaled num den places)
      else scientific (count - 1) trimmed
  number { l with precision := none } (signOf l negative) body true

/-- How a number begins: the value of the part that can be read, and what follows it. -/
def readInteger (text : Octets) : Int × Octets :=
  let text := text.dropWhile fun c => c = ' ' || ('\t' ≤ c && c ≤ '\r')
  let (negative, body) := match text with
    | '-' :: cs => (true, cs)
    | '+' :: cs => (false, cs)
    | cs => (false, cs)
  let (base, ds) := match body with
    | '0' :: 'x' :: c :: cs =>
      if (Json.hexValue? c).isSome then (16, c :: cs) else (8, '0' :: 'x' :: c :: cs)
    | '0' :: 'X' :: c :: cs =>
      if (Json.hexValue? c).isSome then (16, c :: cs) else (8, '0' :: 'X' :: c :: cs)
    | '0' :: cs => (8, '0' :: cs)
    | cs => (10, cs)
  let digits := ds.takeWhile fun c => (Json.hexValue? c).any (· < base)
  let n := digits.foldl (fun n c => n * base + (Json.hexValue? c).getD 0) 0
  if digits.isEmpty then (0, text) else (if negative then -n else n, ds.drop digits.length)

/-- A decimal number at the beginning of a text: the digits are multiplied with a power of ten. -/
structure DecimalText where
  negative : Bool := false
  digits : Nat := 0
  scale : Int := 0
  /-- What follows the number. -/
  rest : Octets

def readDecimal (text : Octets) : DecimalText :=
  let text := text.dropWhile fun c => c = ' ' || ('\t' ≤ c && c ≤ '\r')
  let (negative, body) := match text with
    | '-' :: cs => (true, cs)
    | '+' :: cs => (false, cs)
    | cs => (false, cs)
  let whole := body.takeWhile Char.isDigit
  let rest := body.drop whole.length
  let (part, rest) := match rest with
    | '.' :: cs => (cs.takeWhile Char.isDigit, cs.dropWhile Char.isDigit)
    | cs => ([], cs)
  if whole.isEmpty && part.isEmpty then { rest := text }
  else
    let digits := (whole ++ part).foldl (fun n d => n * 10 + (d.toNat - 48)) 0
    let (exponent, rest) : Int × Octets := match rest with
      | e :: cs =>
        if e = 'e' || e = 'E' then
          let (sign, ds) := match cs with
            | '-' :: ds => ((-1 : Int), ds)
            | '+' :: ds => (1, ds)
            | ds => (1, ds)
          let number := ds.takeWhile Char.isDigit
          if number.isEmpty then (0, e :: cs)
          else
            (sign * (number.foldl (fun n d => n * 10 + (d.toNat - 48)) 0 : Nat),
              ds.drop number.length)
        else (0, e :: cs)
      | [] => (0, [])
    { negative, digits, scale := exponent - part.length, rest }

/-- What can be wrong with a number. -/
inductive Flaw
  | noNumber
  /-- Something follows the number. -/
  | notWhole
  | outOfRange
  deriving DecidableEq, Repr

/-- What is said of an argument that is not, or not wholly, a number. -/
def complaint (style : Style) (argument : Octets) (flaw : Flaw) : Octets :=
  match style, flaw with
  | .builtin, .noNumber => argument ++ ": expected numeric value".toList
  | .builtin, .notWhole => argument ++ ": not completely converted".toList
  | .builtin, .outOfRange => argument ++ ": Numerical result out of range".toList
  | .program, .noNumber => ['\''] ++ argument ++ "': expected a numeric value".toList
  | .program, .notWhole => ['\''] ++ argument ++ "': value not completely converted".toList
  | .program, .outOfRange => ['\''] ++ argument ++ "': Numerical result out of range".toList

def complain (style : Style) (s : State) (argument rest : Octets) (inRange : Bool) : State :=
  let flaw? : Option Flaw :=
    if argument.isEmpty then (if style = .builtin then none else some .noNumber)
    else if rest.isEmpty then (if inRange then none else some .outOfRange)
    else if rest.length = argument.length then some .noNumber
    else some .notWhole
  { s with complaints := s.complaints ++ (flaw?.map (complaint style argument)).toList }

/-- The next argument. -/
def next (s : State) : Option Octets × State :=
  match s.arguments with
  | [] => (none, s)
  | a :: rest => (some a, { s with arguments := rest })

/-- The next argument as a number, brought into the range of such numbers. -/
def nextInteger (style : Style) (signed : Bool) (s : State) : Int × State :=
  let least : Int := if signed then -9223372036854775808 else 1 - span
  let most : Int := if signed then 9223372036854775807 else span - 1
  match next s with
  | (none, s) => (0, s)
  | (some argument, s) =>
    match argument with
    | '\'' :: c :: _ | '"' :: c :: _ => (c.toNat, s)
    | _ =>
      let (n, rest) := readInteger argument
      let within := if n < least && !signed then most else max least (min n most)
      (within, complain style s argument rest (n = within))

/-- Prints an argument that need not be a whole number. -/
def printFraction (style : Style) (l : Layout) (form : Notation) (upper : Bool) (s : State) : State :=
  let (argument, s) := next s
  let argument := argument.getD ['0']
  let decimal := readDecimal argument
  let s := complain style s argument decimal.rest true
  let (num, den) : Nat × Nat :=
    match Number.Binary64.ofDecimal decimal.digits decimal.scale with
    | some (m, e) => if 0 ≤ e then (m * Nat.pow 2 e.toNat, 1) else (m, Nat.pow 2 (-e).toNat)
    | none => (0, 1)
  { s with out := s.out ++ fraction l form upper decimal.negative num den }

/-- The flags of a conversion, and what follows them. -/
def flags (l : Layout) : Octets → Layout × Octets
  | '-' :: cs => flags { l with left := true } cs
  | '+' :: cs => flags { l with plus := true } cs
  | ' ' :: cs => flags { l with space := true } cs
  | '#' :: cs => flags { l with alternate := true } cs
  | '0' :: cs => flags { l with zero := true } cs
  | cs => (l, cs)

/-- A count written in the format or taken from the arguments. -/
def count (style : Style) (s : State) : Octets → Int × State × Octets
  | '*' :: cs =>
    let (n, s) := nextInteger style true s
    (n, s, cs)
  | cs =>
    let digits := cs.takeWhile Char.isDigit
    ((digits.foldl (fun n d => n * 10 + (d.toNat - 48)) 0 : Nat), s, cs.drop digits.length)

/-- Prints the next argument as the letter says. -/
def convert (style : Style) (l : Layout) (letter : Char) (s : State) : Option State :=
  let integer (signed : Bool) (write : Int → Octets) : Option State :=
    let (n, s) := nextInteger style signed s
    some { s with out := s.out ++ write n }
  let text (write : Octets → Octets) : Option State :=
    let (argument, s) := next s
    some { s with out := s.out ++ write (argument.getD []) }
  match letter with
  | 'd' | 'i' => integer true (decimal l)
  | 'u' => integer false (unsigned l 10 false)
  | 'o' => integer false (unsigned l 8 false)
  | 'x' => integer false (unsigned l 16 false)
  | 'X' => integer false (unsigned l 16 true)
  | 's' => text fun a => pad l (l.precision.elim a a.take)
  | 'c' => text fun a => pad l [a.headD '\x00']
  | 'b' =>
    let (argument, s) := next s
    let (a, stop) := escapes style (argument.getD [])
    some { s with out := s.out ++ pad l (l.precision.elim a a.take), stopped := stop }
  | 'f' | 'F' => some (printFraction style l .fixed false s)
  | 'e' => some (printFraction style l .scientific false s)
  | 'E' => some (printFraction style l .scientific true s)
  | 'g' => some (printFraction style l .shorter false s)
  | 'G' => some (printFraction style l .shorter true s)
  | _ => none

/-- Leaves out the letters that say how large a number is; only the program knows them. -/
def withoutSize (style : Style) (cs : Octets) : Octets :=
  if style = .program then cs.dropWhile (· ∈ ['h', 'l', 'L', 'j', 't', 'z']) else cs

/-- Ends the output at an unknown directive. -/
def refuse (style : Style) (s : State) (directive : Octets) : State :=
  let said := match style with
    | .builtin => "%".toList ++ (directive.getLast?.toList) ++ ": invalid directive".toList
    | .program => directive ++ ": invalid conversion specification".toList
  { s with complaints := s.complaints ++ [said], stopped := true, failed := true }

/-- Prints the format once. -/
def printOnce (style : Style) : (limit : Nat) → Octets → State → State
  | 0, _, s => s
  | limit + 1, format, s =>
    if s.stopped then s
    else
      match format with
      | [] => s
      | '%' :: '%' :: rest => printOnce style limit rest { s with out := s.out ++ ['%'] }
      | '%' :: rest =>
        let (l, rest) := flags {} rest
        let (width, s, rest) := count style s rest
        let l := { l with left := l.left || width < 0, width := width.natAbs }
        let (l, s, rest) := match rest with
          | '.' :: rest =>
            let (n, s, rest) := count style s rest
            ({ l with precision := if n < 0 then none else some n.toNat }, s, rest)
          | rest => (l, s, rest)
        match withoutSize style rest with
        | letter :: rest =>
          match convert style l letter s with
          | some s => printOnce style limit rest s
          | none => refuse style s (format.take (format.length - rest.length))
        | [] => refuse style s ['%']
      | '\\' :: rest =>
        if style = .program && rest.head? = some 'c' then { s with stopped := true }
        else if style = .program && rest.head? = some '"' then
          printOnce style limit (rest.drop 1) { s with out := s.out ++ ['"'] }
        else
          match numberEscape? style false rest with
          | some (c, length) =>
            printOnce style limit (rest.drop length) { s with out := s.out ++ [c] }
          | none =>
            match rest.head?.bind letterEscape? with
            | some c => printOnce style limit (rest.drop 1) { s with out := s.out ++ [c] }
            | none => printOnce style limit rest { s with out := s.out ++ ['\\'] }
      | c :: rest => printOnce style limit rest { s with out := s.out ++ [c] }

/-- Prints the format as often as the arguments need. -/
def printAll (style : Style) (format : Octets) : (limit : Nat) → State → State
  | 0, s => s
  | limit + 1, s =>
    let before := s.arguments.length
    let s := printOnce style (format.length + 1) format s
    if s.stopped || s.arguments.isEmpty then s
    else if s.arguments.length = before then
      match style, s.arguments with
      | .program, a :: _ =>
        { s with complaints := s.complaints ++
            ["warning: ignoring excess arguments, starting with '".toList ++ a ++ ['\'']] }
      | _, _ => s
    else printAll style format limit s

structure Printed where
  out : Octets
  complaints : List Octets
  code : Nat

/-- What is printed for a format and its arguments. -/
def print (style : Style) (format : Octets) (arguments : List Octets) : Printed :=
  let s := printAll style format (arguments.length + 1) { arguments }
  let isWarning (said : Octets) : Bool := "warning".toList.isPrefixOf said
  ⟨s.out, s.complaints,
    if s.complaints.all isWarning then 0 else if s.failed && style = .builtin then 2 else 1⟩

end LaunchPlan.Utility.Printf
