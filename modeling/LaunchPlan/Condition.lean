import LaunchPlan.Resolve

/-!
# Conditions

An action is processed when all its conditions hold. The text of a condition is
read as a truth value: blanks around it and the case of letters do not count.
-/

namespace LaunchPlan

/-- Whether a text says yes or no; the empty text says no. -/
def truth? (text : String) : Option Bool :=
  let word := String.ofList ((Text.trim text.toList).map Char.toLower)
  if word ∈ ["true", "1", "yes", "y", "on", "enabled"] then some true
  else if word ∈ ["false", "0", "no", "n", "off", "disabled", ""] then some false
  else none

inductive Condition
  /-- The expression says yes. -/
  | ifTrue (expression : List Substitution)
  /-- The expression says no. -/
  | ifFalse (expression : List Substitution)

namespace Condition

variable {σ : Type} (host : Host σ) (env : Environment) (arguments : ArgumentTable)

def truth (expression : List Substitution) : Resolving σ Bool := do
  let text ← Substitution.resolveList host env arguments expression
  match truth? text with
  | some b => return b
  | none => throw (.invalidCondition text)

def holds : Condition → Resolving σ Bool
  | ifTrue expression => truth host env arguments expression
  | ifFalse expression => do return !(← truth host env arguments expression)

/-- Whether all conditions hold. The first that does not hold or fails is the last one resolved. -/
def allHold : List Condition → Resolving σ Bool
  | [] => pure true
  | c :: cs => do
    if ← c.holds host env arguments then allHold cs else return false

end Condition

end LaunchPlan
