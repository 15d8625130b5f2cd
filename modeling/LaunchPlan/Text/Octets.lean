import LaunchPlan.Text.Utf8

/-!
# Octets

What programs read and write are octets. An octet is kept as the character with
its number, so an ASCII text is the list of its characters.
-/

namespace LaunchPlan

abbrev Octets := List Char

namespace Octets

def ofBytes (bytes : ByteArray) : Octets :=
  bytes.toList.map fun b => Char.ofNat b.toNat

def toBytes (o : Octets) : List UInt8 :=
  o.map fun c => UInt8.ofNat c.toNat

def toByteArray (o : Octets) : ByteArray :=
  ⟨(toBytes o).toArray⟩

/-- The octets of a text. -/
def ofText (text : String) : Octets :=
  ofBytes text.toUTF8

/-- The text that octets write; what is not UTF-8 becomes U+FFFD. -/
def toText (o : Octets) : String :=
  String.ofList (Text.lossy (toBytes o))

/-- The text that octets write, if they are UTF-8. -/
def toText? (o : Octets) : Option String :=
  String.fromUTF8? (toByteArray o)

/-- Whether a text comes before another, or is the same, in the order of octets. -/
def precedes : Octets → Octets → Bool
  | [], _ => true
  | _ :: _, [] => false
  | c :: cs, d :: ds => c.toNat < d.toNat || (c = d && precedes cs ds)

end Octets

end LaunchPlan
