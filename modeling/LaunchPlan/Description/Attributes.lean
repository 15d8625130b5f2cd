import LaunchPlan.Error
import LaunchPlan.OutputMode
import LaunchPlan.Xml.Element

/-!
# Typed attributes

Reading the attributes of an element as truth values, numbers and output modes.
-/

namespace LaunchPlan

/-- The words `true` and `false`. -/
def flag? (text : String) : Option Bool :=
  if text = "true" then some true else if text = "false" then some false else none

/-- The number that decimal digits write; none for anything else and for no digit. -/
def natural? (digits : List Char) : Option Nat :=
  if digits.isEmpty || !digits.all Char.isDigit then none
  else some (digits.foldl (fun n d => n * 10 + (d.toNat - 48)) 0)

/-- A signed decimal number of 32 bits. -/
def integer? (text : String) : Option Int :=
  let value? : Option Int :=
    match text.toList with
    | '+' :: digits => (natural? digits).map Int.ofNat
    | '-' :: digits => (natural? digits).map fun n => -Int.ofNat n
    | digits => (natural? digits).map Int.ofNat
  value?.filter fun n => -2147483648 ≤ n && n < 2147483648

/-- A decimal number from 0 to 255, without a minus sign. -/
def octet? (text : String) : Option Nat :=
  let value? :=
    match text.toList with
    | '+' :: digits => natural? digits
    | digits => natural? digits
  value?.filter fun n => n < 256

namespace Xml.Element

/-- The value of an attribute that has to be there. -/
def require (e : Element) (name : String) : Except ParseError String :=
  match e.attribute? name with
  | some value => .ok value
  | none => .error (.missingAttribute e.name name)

/-- The value of an attribute, read by `read?`. -/
def attributeAs? {α : Type} (e : Element) (name : String) (expected : AttributeType)
    (read? : String → Option α) : Except ParseError (Option α) :=
  match e.attribute? name with
  | none => .ok none
  | some value =>
    match read? value with
    | some a => .ok (some a)
    | none => .error (.typeCoercion name value expected)

end Xml.Element

end LaunchPlan
