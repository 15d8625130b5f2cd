import LaunchPlan.Text.Listing

/-!
# Quoted JSON strings

`quote` writes a text between double quotes. Quotes, backslashes and the
characters below the space are escaped, all others stand for themselves.
-/

namespace LaunchPlan.Json

def quotedChar (c : Char) : List Char :=
  if c = '"' then ['\\', '"']
  else if c = '\\' then ['\\', '\\']
  else if c = '\x08' then ['\\', 'b']
  else if c = '\x0c' then ['\\', 'f']
  else if c = '\n' then ['\\', 'n']
  else if c = '\r' then ['\\', 'r']
  else if c = '\t' then ['\\', 't']
  else if c.toNat < 0x20 then
    ['\\', 'u', '0', '0', Text.hexDigit (c.toNat / 16), Text.hexDigit (c.toNat % 16)]
  else [c]

def quoteChars (cs : List Char) : List Char :=
  '"' :: cs.flatMap quotedChar ++ ['"']

def quote (text : String) : String :=
  String.ofList (quoteChars text.toList)

end LaunchPlan.Json
