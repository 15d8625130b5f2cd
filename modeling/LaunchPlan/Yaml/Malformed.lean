/-!
# Why a text is not a YAML document
-/

namespace LaunchPlan.Yaml

inductive Malformed
  | character
  | unfinished
  | indentation
  | keyExpected
  | misplaced
  | directive
  | anchor
  | tag
  | escape
  | scalarHeader
  | nodeExpected
  | separatorExpected
  | unknownAnchor (name : String)
  | severalDocuments
  | duplicateKey
  | number (text : String)
  | tooDeep
  | tooManyRepetitions
  deriving DecidableEq, Repr

namespace Malformed

def reason : Malformed → String
  | character => "a character is not allowed here"
  | unfinished => "the text ends inside a value"
  | indentation => "the indentation does not fit"
  | keyExpected => "a key needs a colon"
  | misplaced => "an indicator is not allowed here"
  | directive => "invalid directive"
  | anchor => "invalid anchor"
  | tag => "invalid tag"
  | escape => "invalid escape"
  | scalarHeader => "invalid header of a block text"
  | nodeExpected => "a value is expected"
  | separatorExpected => "a separator is expected"
  | unknownAnchor name => "unknown anchor " ++ name
  | severalDocuments => "there is more than one document"
  | duplicateKey => "a key occurs twice"
  | number text => "the number " ++ text ++ " does not fit"
  | tooDeep => "values are nested too deeply"
  | tooManyRepetitions => "values are repeated too often"

end Malformed

end LaunchPlan.Yaml
