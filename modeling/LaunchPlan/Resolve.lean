import LaunchPlan.Arguments
import LaunchPlan.Host
import LaunchPlan.Package
import LaunchPlan.Substitution

/-!
# Resolving expressions

The text of an expression, given a host, an environment and the arguments in
scope. A list of expressions has the concatenation of their texts, resolved from
left to right up to the first failure.
-/

namespace LaunchPlan.Substitution

variable {σ : Type} (host : Host σ) (env : Environment) (arguments : ArgumentTable)

def resolveArgument (name : String) : Resolving σ String :=
  match arguments.lookup name with
  | some value => pure value
  | none => throw (.undefinedVariable name)

def resolvePackage (package : String) : Resolving σ String := do
  let tree := host.files (← get).machine
  match Package.share? tree.exists? env package with
  | some path => return path
  | none => throw (.packageNotFound package)

/-- Runs the case of a selector that a value chooses. -/
def resolveChoice {ε : Type} (selector : Selector ε (Resolving σ String)) (value : String) :
    Resolving σ String :=
  match selector.choose value with
  | some case => case
  | none => throw (.noMatchingCase value (selector.cases.map Prod.fst))

mutual

/-- The text of an expression. -/
def resolve : Substitution → Resolving σ String
  | text s => pure s
  | .env name default =>
    match env.get? name with
    | some value => pure value
    | none => resolveDefault name default
  | argument name => resolveArgument arguments name
  | command parts => do host.output env (← resolveList parts)
  | concat parts => resolveList parts
  | pathJoin parts => do return Path.joinSegments (← resolveEach parts)
  | findPackageShare parts => do resolvePackage host env (← resolveList parts)
  | select ⟨condition, cases, default⟩ => do
    let value ← resolve condition
    resolveChoice ⟨condition, resolveCases cases, resolveOption default⟩ value

/-- The concatenated texts of a list of expressions. -/
def resolveList : List Substitution → Resolving σ String
  | [] => pure ""
  | part :: parts => do
    let first ← resolve part
    let rest ← resolveList parts
    return first ++ rest

/-- The texts of a list of expressions, one by one. -/
def resolveEach : List Substitution → Resolving σ (List String)
  | [] => pure []
  | part :: parts => do
    let first ← resolve part
    let rest ← resolveEach parts
    return first :: rest

/-- The default of a variable that is not set. -/
def resolveDefault (name : String) : Option (List Substitution) → Resolving σ String
  | none => throw (.undefinedEnvironment name)
  | some parts => resolveList parts

/-- The cases of a selector, each with the computation of its text. -/
def resolveCases : List (String × Substitution) → List (String × Resolving σ String)
  | [] => []
  | (key, value) :: cases => (key, resolve value) :: resolveCases cases

def resolveOption : Option Substitution → Option (Resolving σ String)
  | none => none
  | some value => some (resolve value)

end

end LaunchPlan.Substitution
