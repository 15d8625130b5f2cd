/-!
# Why a text is not a document
-/

namespace LaunchPlan.Xml

inductive Malformed
  | unexpectedEnd
  | unexpectedCharacter (c : Char)
  | invalidName
  | invalidReference
  | invalidComment
  | invalidText
  | misplacedDeclaration
  | documentType
  | unclosedTag (name : String)
  | unknownNamespace (qualifier : String)
  | reservedNamespace
  | duplicate (name : String)
  | noRoot
  | trailingText
  deriving DecidableEq, Repr

namespace Malformed

def reason : Malformed → String
  | unexpectedEnd => "the text ends too early"
  | unexpectedCharacter c => "unexpected character " ++ toString c.toNat
  | invalidName => "a name is expected"
  | invalidReference => "invalid reference"
  | invalidComment => "invalid comment"
  | invalidText => "the text holds the end of a literal section"
  | misplacedDeclaration => "a declaration may only begin a document"
  | documentType => "document types are not allowed"
  | unclosedTag name => "the element " ++ name ++ " is closed by another tag"
  | unknownNamespace qualifier => "unknown namespace " ++ qualifier
  | reservedNamespace => "a reserved namespace is bound"
  | duplicate name => "duplicate name " ++ name
  | noRoot => "there is no root element"
  | trailingText => "text after the root element"

end Malformed

end LaunchPlan.Xml
