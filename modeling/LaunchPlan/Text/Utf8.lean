/-!
# Bytes as text

Bytes are decoded as UTF-8. Where they are not, each longest beginning of a
well-formed sequence, and each byte that begins none, becomes one U+FFFD.
-/

namespace LaunchPlan.Text

def replacement : Char := '\uFFFD'

/-- A sequence that has begun: the bytes it still needs, the bounds of the next one, and the bits
read so far. -/
structure Unfinished where
  missing : Nat
  low : Nat
  high : Nat
  bits : Nat
  deriving DecidableEq, Repr

/-- The sequence that a byte begins, if it needs further bytes. The bounds of the second byte rule
out overlong forms, surrogates and numbers beyond the last code point. -/
def Unfinished.ofLead (b : Nat) : Option Unfinished :=
  if 0xC2 ≤ b ∧ b ≤ 0xDF then some ⟨1, 0x80, 0xBF, b % 32⟩
  else if b = 0xE0 then some ⟨2, 0xA0, 0xBF, 0⟩
  else if b = 0xED then some ⟨2, 0x80, 0x9F, 13⟩
  else if 0xE1 ≤ b ∧ b ≤ 0xEF then some ⟨2, 0x80, 0xBF, b % 16⟩
  else if b = 0xF0 then some ⟨3, 0x90, 0xBF, 0⟩
  else if 0xF1 ≤ b ∧ b ≤ 0xF3 then some ⟨3, 0x80, 0xBF, b % 8⟩
  else if b = 0xF4 then some ⟨3, 0x80, 0x8F, 4⟩
  else none

/-- What a byte outside a sequence gives. -/
def leadByte (b : Nat) : List Char × Option Unfinished :=
  if b < 0x80 then ([Char.ofNat b], none)
  else
    match Unfinished.ofLead b with
    | some u => ([], some u)
    | none => ([replacement], none)

/-- What a byte gives after the beginning `u` of a sequence. -/
def nextByte (u : Unfinished) (b : Nat) : List Char × Option Unfinished :=
  if u.low ≤ b ∧ b ≤ u.high then
    let bits := u.bits * 64 + b % 64
    if u.missing ≤ 1 then ([Char.ofNat bits], none)
    else ([], some ⟨u.missing - 1, 0x80, 0xBF, bits⟩)
  else
    let (text, u) := leadByte b
    (replacement :: text, u)

def lossyFrom : Option Unfinished → List UInt8 → List Char
  | none, [] => []
  | some _, [] => [replacement]
  | none, b :: bs =>
    let (text, u) := leadByte b.toNat
    text ++ lossyFrom u bs
  | some u, b :: bs =>
    let (text, u) := nextByte u b.toNat
    text ++ lossyFrom u bs

/-- The text of bytes. -/
def lossy (bytes : List UInt8) : List Char :=
  lossyFrom none bytes

example : lossy [0x61, 0xC3, 0xA9, 0xE2, 0x82, 0x28, 0xFF] =
    ['a', 'é', replacement, '(', replacement] := by decide

end LaunchPlan.Text
