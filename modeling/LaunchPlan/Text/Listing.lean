import LaunchPlan.Text.Printable

/-!
# Quoted listings

Lists of texts as error messages show them: `["a", "q\"q"]`. Quotes and
backslashes get a backslash, the common controls their letter, and every other
character that is not printable its code point in hexadecimal.
-/

namespace LaunchPlan.Text

def hexDigit (n : Nat) : Char :=
  if n < 10 then Char.ofNat (48 + n) else Char.ofNat (87 + n)

/-- A number in the digits of `base`, most significant first, without leading zeros. -/
def digitsIn (base n : Nat) : List Char :=
  if 1 < base ∧ base ≤ n then digitsIn base (n / base) ++ [hexDigit (n % base)] else [hexDigit n]
termination_by n
decreasing_by exact Nat.div_lt_self (by omega) (by omega)

def listedChar (c : Char) : List Char :=
  if c = '"' then ['\\', '"']
  else if c = '\\' then ['\\', '\\']
  else if c = '\n' then ['\\', 'n']
  else if c = '\r' then ['\\', 'r']
  else if c = '\t' then ['\\', 't']
  else if c = '\x00' then ['\\', '0']
  else if isPrintable c then [c]
  else ['\\', 'u', '\x7b'] ++ digitsIn 16 c.toNat ++ ['\x7d']

/-- A text between double quotes, its characters escaped. -/
def listed (s : String) : String :=
  String.ofList (['"'] ++ s.toList.flatMap listedChar ++ ['"'])

/-- A bracketed list of quoted texts. -/
def listing (items : List String) : String :=
  "[" ++ ", ".intercalate (items.map listed) ++ "]"

end LaunchPlan.Text
