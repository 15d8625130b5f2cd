import LaunchPlan.Json.Reader
import LaunchPlan.Text.Octets
import LaunchPlan.Utility.Style

/-!
# Backslash escapes

The escapes that `echo` and `printf` expand.
-/

namespace LaunchPlan.Utility

def isOctalDigit (c : Char) : Bool :=
  '0' ≤ c && c ≤ '7'

/-- The octet with the number that digits write, of which the lowest eight bits count. -/
def octetOf (base : Nat) (digits : Octets) : Char :=
  Char.ofNat (digits.foldl (fun n c => n * base + (Json.hexValue? c).getD 0) 0 % 256)

/-- What a letter stands for after a backslash. -/
def letterEscape? (c : Char) : Option Char :=
  match c with
  | '\\' => some '\\'
  | 'a' => some '\x07'
  | 'b' => some '\x08'
  | 'f' => some '\x0c'
  | 'n' => some '\n'
  | 'r' => some '\r'
  | 't' => some '\t'
  | 'v' => some '\x0b'
  | 'e' => some '\x1b'
  | _ => none

/-- The first `n` of the characters that are digits. -/
def digitsUpTo (n : Nat) (isDigit : Char → Bool) (cs : Octets) : Octets :=
  (cs.take n).takeWhile isDigit

/-- The octet that a number after a backslash writes, and how long it is. With `zeroLeads`, an octal
number has a zero in front of its three digits. -/
def numberEscape? (style : Style) (zeroLeads : Bool) (cs : Octets) : Option (Char × Nat) :=
  match cs with
  | 'x' :: rest =>
    let digits := digitsUpTo 2 (fun c => (Json.hexValue? c).isSome) rest
    if style = .program && !digits.isEmpty then some (octetOf 16 digits, digits.length + 1) else none
  | '0' :: rest =>
    if zeroLeads then
      let digits := digitsUpTo 3 isOctalDigit rest
      some (octetOf 8 digits, digits.length + 1)
    else
      let digits := digitsUpTo 3 isOctalDigit cs
      some (octetOf 8 digits, digits.length)
  | c :: _ =>
    if isOctalDigit c && (style = .builtin || !zeroLeads) then
      let digits := digitsUpTo 3 isOctalDigit cs
      some (octetOf 8 digits, digits.length)
    else none
  | [] => none

/-- A text with its escapes expanded, and whether `\c` ended it. -/
def expandEscapes (style : Style) : (limit : Nat) → Octets → Octets × Bool
  | 0, _ => ([], false)
  | limit + 1, cs =>
    match cs with
    | [] => ([], false)
    | '\\' :: 'c' :: _ => ([], true)
    | '\\' :: rest =>
      match numberEscape? style true rest with
      | some (c, length) =>
        let (out, stop) := expandEscapes style limit (rest.drop length)
        (c :: out, stop)
      | none =>
        match rest with
        | d :: after =>
          match letterEscape? d with
          | some c =>
            let (out, stop) := expandEscapes style limit after
            (c :: out, stop)
          | none =>
            let (out, stop) := expandEscapes style limit rest
            ('\\' :: out, stop)
        | [] => (['\\'], false)
    | c :: rest =>
      let (out, stop) := expandEscapes style limit rest
      (c :: out, stop)

/-- A text with its escapes expanded. -/
def escapes (style : Style) (cs : Octets) : Octets × Bool :=
  expandEscapes style (cs.length + 1) cs

end LaunchPlan.Utility
