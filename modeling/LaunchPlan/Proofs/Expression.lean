import LaunchPlan.Description

/-!
# The structure of expressions

Induction over expressions, whose lists, cases and defaults hold expressions again, and the names
of the launch arguments that an expression, an action or a description mentions.
-/

namespace LaunchPlan

namespace Substitution

section Induction

set_option linter.unusedSectionVars false

variable {P : Substitution → Prop}
  (text : ∀ s, P (text s))
  (env : ∀ name default, (∀ parts ∈ default, ∀ part ∈ parts, P part) → P (.env name default))
  (argument : ∀ name, P (argument name))
  (command : ∀ parts, (∀ part ∈ parts, P part) → P (command parts))
  (concat : ∀ parts, (∀ part ∈ parts, P part) → P (concat parts))
  (pathJoin : ∀ parts, (∀ part ∈ parts, P part) → P (pathJoin parts))
  (findPackageShare : ∀ parts, (∀ part ∈ parts, P part) → P (findPackageShare parts))
  (select : ∀ condition cases default, P condition → (∀ c ∈ cases, P c.2) →
    (∀ value ∈ default, P value) → P (select ⟨condition, cases, default⟩))

include text env argument command concat pathJoin findPackageShare select

mutual

/-- What holds of an expression when it holds of all expressions in it holds of every one. -/
@[elab_as_elim]
theorem inductionOn : ∀ e, P e
  | .text s => text s
  | .env name default => env name default (inductionOnDefault default)
  | .argument name => argument name
  | .command parts => command parts (inductionOnList parts)
  | .concat parts => concat parts (inductionOnList parts)
  | .pathJoin parts => pathJoin parts (inductionOnList parts)
  | .findPackageShare parts => findPackageShare parts (inductionOnList parts)
  | .select ⟨condition, cases, default⟩ =>
    select condition cases default (inductionOn condition) (inductionOnCases cases)
      (inductionOnOption default)

theorem inductionOnList : ∀ parts : List Substitution, ∀ part ∈ parts, P part
  | [] => by simp
  | part :: parts => List.forall_mem_cons.2 ⟨inductionOn part, inductionOnList parts⟩

theorem inductionOnDefault :
    ∀ default : Option (List Substitution), ∀ parts ∈ default, ∀ part ∈ parts, P part
  | none => by simp
  | some parts => by simpa using inductionOnList parts

theorem inductionOnCases : ∀ cases : List (String × Substitution), ∀ c ∈ cases, P c.2
  | [] => by simp
  | (_, value) :: cases => List.forall_mem_cons.2 ⟨inductionOn value, inductionOnCases cases⟩

theorem inductionOnOption : ∀ default : Option Substitution, ∀ value ∈ default, P value
  | none => by simp
  | some value => by simpa using inductionOn value

end

end Induction

mutual

/-- The arguments that an expression mentions, at any depth. -/
def names : Substitution → List String
  | text _ => []
  | .env _ default => defaultNames default
  | argument name => [name]
  | command parts => listNames parts
  | concat parts => listNames parts
  | pathJoin parts => listNames parts
  | findPackageShare parts => listNames parts
  | select ⟨condition, cases, default⟩ =>
    names condition ++ caseNames cases ++ optionNames default

def listNames : List Substitution → List String
  | [] => []
  | part :: parts => names part ++ listNames parts

def defaultNames : Option (List Substitution) → List String
  | none => []
  | some parts => listNames parts

def caseNames : List (String × Substitution) → List String
  | [] => []
  | (_, value) :: cases => names value ++ caseNames cases

def optionNames : Option Substitution → List String
  | none => []
  | some value => names value

end

theorem mem_listNames {x : String} {parts : List Substitution} :
    x ∈ listNames parts ↔ ∃ part ∈ parts, x ∈ part.names := by
  induction parts with
  | nil => simp [listNames]
  | cons part parts ih => simp [listNames, ih]

theorem mem_caseNames {x : String} {cases : List (String × Substitution)} :
    x ∈ caseNames cases ↔ ∃ c ∈ cases, x ∈ c.2.names := by
  induction cases with
  | nil => simp [caseNames]
  | cons c cases ih => simp [caseNames, ih]

theorem mem_optionNames {x : String} {default : Option Substitution} :
    x ∈ optionNames default ↔ ∃ value ∈ default, x ∈ value.names := by
  cases default <;> simp [optionNames]

end Substitution

namespace Condition

def expression : Condition → List Substitution
  | ifTrue expression => expression
  | ifFalse expression => expression

end Condition

open Substitution

namespace ProcessTemplate

variable {p : ProcessTemplate} {x : String}

/-- The expressions in a process, those that name files of parameters apart. -/
def expressions (p : ProcessTemplate) : List (List Substitution) :=
  p.executable :: (p.package.toList ++ p.name.toList ++ p.space.toList ++ p.arguments ++
    p.parameters.map Prod.snd ++ p.environment.map Prod.snd)

/-- The arguments that a process mentions. -/
def names (p : ProcessTemplate) : List String :=
  defaultNames p.package ++ listNames p.executable ++ defaultNames p.name ++
    defaultNames p.space ++ p.arguments.flatMap listNames ++
    p.parameters.flatMap (fun b => listNames b.2) ++ p.paramFiles.flatMap listNames ++
    p.environment.flatMap fun b => listNames b.2

theorem mem_names_of_expressions {expression : List Substitution}
    (h : expression ∈ p.expressions) (hx : x ∈ listNames expression) : x ∈ p.names := by
  simp only [expressions, List.mem_cons, List.mem_append, Option.mem_toList, List.mem_map] at h
  simp only [names, List.mem_append, List.mem_flatMap]
  grind [defaultNames]

theorem mem_names_of_paramFiles {file : List Substitution} (h : file ∈ p.paramFiles)
    (hx : x ∈ listNames file) : x ∈ p.names := by
  simp only [names, List.mem_append, List.mem_flatMap]
  exact .inl (.inr ⟨file, h, hx⟩)

end ProcessTemplate

namespace Action

/-- The arguments that an action declares or mentions outside its conditions. The overrides of an
inclusion are no mention of the names they set. -/
def bodyNames : Action → List String
  | argument a => a.name :: defaultNames a.default
  | process p => p.names
  | inclusion i => listNames i.locator ++ i.overrides.flatMap fun b => listNames b.2

/-- The arguments that an action declares or mentions. -/
def names (a : Action) : List String :=
  a.conditions.flatMap (fun c => listNames c.expression) ++ a.bodyNames

end Action

end LaunchPlan
