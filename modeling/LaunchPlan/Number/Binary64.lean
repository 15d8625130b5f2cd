/-!
# Binary floating point numbers of 64 bits

A finite number is `mantissa * 2 ^ exponent` with a sign. Decimal numbers are
rounded to the nearest such number, a half to the even neighbour, in exact
arithmetic; the shortest decimal that rounds back is found in the same way.
-/

namespace LaunchPlan.Number

inductive Binary64
  | finite (negative : Bool) (mantissa : Nat) (exponent : Int)
  | infinite (negative : Bool)
  | nan
  deriving DecidableEq, Repr

namespace Binary64

/-- The number of bits of a number's binary form. -/
def bitLength (n : Nat) : Nat :=
  if n = 0 then 0 else n.log2 + 1

/-- The quotient rounded to the nearest whole number, a half to the even one. -/
def roundDiv (num den : Nat) : Nat :=
  let q := num / den
  let r := num % den
  if 2 * r < den then q else if den < 2 * r then q + 1 else q + q % 2

/-- The quotient `num / 2 ^ e / den` rounded to a whole number. -/
def roundScaled (num den : Nat) (e : Int) : Nat :=
  if 0 ≤ e then roundDiv num (den * Nat.pow 2 e.toNat) else roundDiv (num * Nat.pow 2 (-e).toNat) den

/-- The number nearest to `num / den`, none when it is too large. -/
def ofRatio (num den : Nat) : Option (Nat × Int) :=
  if num = 0 then some (0, -1074)
  else
    let estimate : Int := (bitLength num : Int) - bitLength den - 53
    let e := max estimate (-1074)
    let m := roundScaled num den e
    -- an estimate that is one too small leaves 54 bits; the quotient is then rounded once, further out
    let (m, e) := if 9007199254740992 < m then (roundScaled num den (e + 1), e + 1) else (m, e)
    let (m, e) := if m = 9007199254740992 then (4503599627370496, e + 1) else (m, e)
    if 971 < e then none else some (m, e)

/-- The number nearest to `digits * 10 ^ scale`, none when it is too large. -/
def ofDecimal (digits : Nat) (scale : Int) : Option (Nat × Int) :=
  if digits = 0 then some (0, -1074)
  else
    let size : Int := (toString digits).length
    if 400 < size + scale then none
    else if size + scale < -400 then some (0, -1074)
    else if 0 ≤ scale then ofRatio (digits * Nat.pow 10 scale.toNat) 1
    else ofRatio digits (Nat.pow 10 (-scale).toNat)

def isZero : Binary64 → Bool
  | finite _ 0 _ => true
  | _ => false

/-- Equality of the numbers: the two zeros are equal, and NaN is taken to equal itself. -/
def same (a b : Binary64) : Bool :=
  a = b || (a.isZero && b.isZero)

end Binary64

/-- A decimal number `0.d₁d₂… * 10 ^ point`, its digits without zeros at either end; zero has no
digits. -/
structure Decimal where
  digits : List Char
  point : Int
  deriving DecidableEq, Repr

namespace Decimal

/-- The exponent `p` with `10 ^ (p - 1) ≤ num / den < 10 ^ p`, for a positive quotient. -/
def pointOf (num den : Nat) : Int :=
  if den ≤ num then (toString (num / den)).length
  else
    let rec go : (fuel : Nat) → Nat → Int → Int
      | 0, _, p => p
      | fuel + 1, n, p => if den ≤ n then p else go fuel (n * 10) (p - 1)
    go 400 (num * 10) 0

/-- The decimal with the fewest digits, and of those the nearest to `num / den`, that lies between
`low / den` and `high / den`; the bounds count when `closed` holds. -/
def shortest (num low high den : Nat) (closed : Bool) : Decimal :=
  let point := pointOf num den
  let inside (n d : Nat) : Bool :=
    if closed then low * d ≤ n * den && n * den ≤ high * d
    else low * d < n * den && n * den < high * d
  let rec go : (fuel : Nat) → Nat → Decimal
    | 0, _ => ⟨[], 0⟩
    | fuel + 1, size =>
      -- the grid of decimals with `size` digits: candidate `k` stands for `k * 10 ^ scale`
      let scale : Int := point - size
      let up := Nat.pow 10 scale.toNat
      let down := Nat.pow 10 (-scale).toNat
      let k := num * down / (den * up)
      let below := inside (k * up) down
      let above := inside ((k + 1) * up) down
      let pick (k : Nat) : Decimal :=
        let text := (toString k).toList
        let digits := (text.reverse.dropWhile (· = '0')).reverse
        ⟨digits, point + (text.length - size : Int)⟩
      if below || above then
        let rest := num * down - k * (den * up)
        if below && above then
          if 2 * rest < den * up || (2 * rest = den * up && k % 2 = 0) then pick k else pick (k + 1)
        else if below then pick k
        else pick (k + 1)
      else go fuel (size + 1)
  go 20 1

/-- The shortest decimal that is read back as `mantissa * 2 ^ exponent`. -/
def ofBinary (mantissa : Nat) (exponent : Int) : Decimal :=
  if mantissa = 0 then ⟨[], 0⟩
  else
    -- everything in quarters of the last place, so that the nearer neighbour below a power of two
    -- is a whole number of them
    let up := Nat.pow 2 exponent.toNat
    let den := 4 * Nat.pow 2 (-exponent).toNat
    let low := if mantissa = 4503599627370496 && -1074 < exponent then 4 * mantissa - 1 else 4 * mantissa - 2
    shortest (4 * mantissa * up) (low * up) ((4 * mantissa + 2) * up) den (mantissa % 2 = 0)

end Decimal

/-- How a format writes decimals. -/
structure DecimalFormat where
  /-- Numbers from `10 ^ least` up to, but not with, `10 ^ most` are written without exponent. -/
  least : Int
  most : Int
  /-- What stands before an exponent that is not negative. -/
  plus : String
  /-- The least number of digits of an exponent. -/
  exponentDigits : Nat

namespace DecimalFormat

def padded (width n : Nat) : String :=
  let text := toString n
  String.ofList (List.replicate (width - text.length) '0') ++ text

/-- A decimal without its sign. -/
def write (f : DecimalFormat) (d : Decimal) : String :=
  let size := d.digits.length
  if size = 0 then "0.0"
  else if f.least < d.point && d.point ≤ f.most then
    if d.point ≤ 0 then
      "0." ++ String.ofList (List.replicate (-d.point).toNat '0' ++ d.digits)
    else
      let whole := d.point.toNat
      if size ≤ whole then
        String.ofList (d.digits ++ List.replicate (whole - size) '0') ++ ".0"
      else String.ofList (d.digits.take whole ++ ['.'] ++ d.digits.drop whole)
  else
    let exponent := d.point - 1
    let mark := if exponent < 0 then "-" else f.plus
    let fraction := if size = 1 then [] else '.' :: d.digits.tail
    String.ofList (d.digits.take 1 ++ fraction) ++ "e" ++ mark ++
      padded f.exponentDigits exponent.natAbs

end DecimalFormat

end LaunchPlan.Number
