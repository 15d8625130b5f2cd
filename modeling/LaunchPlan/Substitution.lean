import LaunchPlan.Selector

/-!
# Expressions

An expression stands for a text that is known only at launch time. A list of
expressions stands for the concatenation of their texts.
-/

namespace LaunchPlan

inductive Substitution
  | text (text : String)
  /-- An environment variable, or the default where it is not set. -/
  | env (name : String) (default : Option (List Substitution))
  /-- A launch argument. -/
  | argument (name : String)
  /-- What a command prints. -/
  | command (parts : List Substitution)
  | concat (parts : List Substitution)
  /-- Path segments joined by single separators. -/
  | pathJoin (parts : List Substitution)
  /-- The share directory of a package. -/
  | findPackageShare (parts : List Substitution)
  | select (selector : Selector Substitution Substitution)

namespace Substitution

/-- One expression for a list of them. -/
def ofParts : List Substitution → Substitution
  | [] => text ""
  | [part] => part
  | parts => concat parts

@[simp] theorem ofParts_nil : ofParts [] = text "" := rfl

@[simp] theorem ofParts_singleton (part : Substitution) : ofParts [part] = part := rfl

end Substitution

end LaunchPlan
