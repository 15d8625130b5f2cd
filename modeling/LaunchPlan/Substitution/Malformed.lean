/-!
# Why a text is not an expression
-/

namespace LaunchPlan

inductive Malformed
  | unmatchedParentheses (text : String)
  /-- Nothing stands between the parentheses. -/
  | empty
  | unknownKind (kind : String)
  | argumentMissing (kind : String)
  /-- `$(var ...)` holds a blank or a nested expression. -/
  | plainNameExpected (name : String)
  | variableNameMissing
  | conditionMissing
  | casesMissing
  /-- A case of `$(select ...)` has no `=`. -/
  | notKeyValue (word : String)
  | unterminatedQuote (text : String)
  /-- The command of an executable has no word. -/
  | emptyCommand
  deriving DecidableEq, Repr

namespace Malformed

def message : Malformed → String
  | unmatchedParentheses text => "Unmatched parentheses in substitution: " ++ text
  | empty => "Empty substitution"
  | unknownKind kind => "Unknown substitution type: " ++ kind
  | argumentMissing kind => kind ++ " requires an argument"
  | plainNameExpected name => "var expects a plain argument name, got '" ++ name ++ "'"
  | variableNameMissing => "env requires a variable name"
  | conditionMissing => "select requires a condition"
  | casesMissing => "select requires at least one KEY=VALUE case"
  | notKeyValue word => "select case '" ++ word ++ "' is not KEY=VALUE"
  | unterminatedQuote text => "Unterminated quote in: " ++ text
  | emptyCommand => "empty 'cmd' on <executable>"

end Malformed

end LaunchPlan
