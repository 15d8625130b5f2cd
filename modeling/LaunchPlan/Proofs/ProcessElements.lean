import LaunchPlan.Description.Elements
import LaunchPlan.Proofs.Reading
import LaunchPlan.Proofs.WordPlaces

/-!
# The two elements for processes

Where a text leaves no quote and no parenthesis open, a blank behind it separates: the words of the
whole are those in front of the blank and those behind it. So it makes no difference whether a
program stands in front of its arguments in one attribute, or in an attribute of its own with all
arguments in another one.
-/

namespace LaunchPlan

namespace Substitution

section Seam

variable {before : List Char} {c : Char}

theorem WordState.step_separator {s : WordState} (hs : s.nesting = {})
    (hc : Text.isBlank c = true) :
    s.step c = ({}, if s.inWord then .finish else .skip) := by
  obtain ⟨quote, depth, inWord⟩ := s
  obtain ⟨rfl, rfl⟩ : quote = none ∧ depth = 0 := by simpa [nesting] using hs
  have hdelimiter := (not_delimiter_of_isBlank hc).1
  simp only [isDelimiter, Bool.or_eq_false_iff, decide_eq_false_iff_not] at hdelimiter
  simp [step, hdelimiter, hc]

theorem consWord_append {ws : List (List Char)} (hne : ws ≠ []) (c : Char)
    (vs : List (List Char)) : consWord c (ws ++ vs) = consWord c ws ++ vs := by
  cases ws with
  | nil => exact absurd rfl hne
  | cons w ws => rfl

/-- A blank behind a text that leaves nothing open separates the words. By induction on the text, as
the splitter goes through it before it comes to the blank. -/
theorem wordsFrom_append_blank {s : WordState} (hs : s.Sound)
    (hopen : before.foldl Nesting.step s.nesting = {}) (hc : Text.isBlank c = true)
    (after : List Char) :
    wordsFrom s (before ++ c :: after) =
      (wordsFrom s before).bind fun ws => (words after).map (ws ++ ·) := by
  induction before generalizing s with
  | nil =>
    have hquote : s.quote = none := congrArg Nesting.quote hopen
    cases hw : s.inWord <;>
      simp [wordsFrom, words, WordState.step_separator hopen hc, hquote, hw]
  | cons d before ih =>
    have hnext := hs.step d
    have hmarks := hs.marks d
    rw [List.foldl_cons, ← s.nesting_step d] at hopen
    rw [List.cons_append, wordsFrom, wordsFrom]
    split
    · next next hstep =>
      rw [hstep] at hnext hmarks hopen
      cases hmarks with
      | keep hin =>
        rw [ih hnext hopen]
        cases hws : wordsFrom next before with
        | none => rfl
        | some ws =>
          have hne : ws ≠ [] := wordsFrom_ne_nil hnext hin hws
          simp [consWord_append hne, Function.comp_def]
    · next next hstep =>
      rw [hstep] at hnext hopen
      exact ih hnext hopen
    · next next hstep =>
      rw [hstep] at hnext hopen
      rw [ih hnext hopen]
      cases wordsFrom next before <;> simp [Function.comp_def]

theorem words_append_blank (hopen : nestingAfter before = {}) (hc : Text.isBlank c = true)
    (after : List Char) :
    words (before ++ c :: after) =
      (words before).bind fun ws => (words after).map (ws ++ ·) :=
  wordsFrom_append_blank WordState.sound_default hopen hc after

theorem nestingAfter_concat (before : List Char) (c : Char) :
    nestingAfter (before ++ [c]) = (nestingAfter before).step c := by
  simp [nestingAfter]

/-- Text that has words and closes its parentheses. -/
structure Closed (cs : List Char) : Prop where
  splits : ∃ ws, splitWords cs = .ok ws
  depth : (nestingAfter cs).depth = 0

theorem Closed.nesting {cs : List Char} (h : Closed cs) : nestingAfter cs = {} := by
  obtain ⟨ws, hws⟩ := h.splits
  have hquote : (nestingAfter cs).quote = none := by
    by_contra hopen
    have hnone := (WordState.wordsFrom_eq_none_iff {} cs).2 hopen
    rw [← words, words_of_splitWords hws] at hnone
    cases hnone
  calc nestingAfter cs = ⟨(nestingAfter cs).quote, (nestingAfter cs).depth⟩ := rfl
    _ = {} := by rw [hquote, h.depth]

/-- A closed text that is its own only word, and has no quotes. -/
structure Bare (w : List Char) : Prop where
  single : splitWords w = .ok [w]
  depth : (nestingAfter w).depth = 0
  unquoted : ∀ c ∈ w, c ≠ '\'' ∧ c ≠ '"'

namespace Bare

variable {w : List Char}

theorem closed (h : Bare w) : Closed w :=
  ⟨⟨_, h.single⟩, h.depth⟩

theorem ne_nil (h : Bare w) : w ≠ [] := by
  rintro rfl
  cases h.single

/-- Without quotes, no quote is ever open. -/
theorem quote_nestingAfter (hw : ∀ c ∈ w, c ≠ '\'' ∧ c ≠ '"') : (nestingAfter w).quote = none := by
  induction w using List.reverseRecOn with
  | nil => rfl
  | append_singleton before c ih =>
    obtain ⟨hbefore, hc⟩ := List.forall_mem_append.1 hw
    obtain ⟨hsingle, hdouble⟩ := hc c (List.mem_singleton_self c)
    rw [nestingAfter_concat, Nesting.step, ih hbefore]
    simp only [hsingle, hdouble, decide_false, Bool.or_self, Bool.false_eq_true, if_false]
    split_ifs
    · rfl
    · rfl
    · exact ih hbefore

/-- A blank in front of the word would be left out of it, and so would one at its end. -/
theorem trimmed (h : Bare w) : Trimmed w where
  head c hc := by
    rw [← Bool.not_eq_true]
    intro hblank
    obtain ⟨rest, rfl⟩ := List.head?_eq_some_iff.1 hc
    have hrest : words rest = some [c :: rest] := by
      simpa [words, wordsFrom, WordState.step_separator (s := {}) rfl hblank] using
        words_of_splitWords h.single
    have hle := joinedLength_words_le hrest
    simp only [joinedLength, List.length_cons] at hle
    omega
  last c hc := by
    rw [← Bool.not_eq_true]
    intro hblank
    obtain ⟨init, rfl⟩ := List.getLast?_eq_some_iff.1 hc
    have hquote := quote_nestingAfter (List.forall_mem_append.1 h.unquoted).1
    have hopen := h.closed.nesting
    rw [nestingAfter_concat,
      Nesting.step_of_not_delimiter hquote (not_delimiter_of_isBlank hblank).1] at hopen
    have hinit : words init = some [init ++ [c]] := by
      have hnil : words [] = some [] := rfl
      have hw := words_of_splitWords h.single
      rw [words_append_blank hopen hblank, hnil] at hw
      cases hws : words init with
      | none => rw [hws] at hw; cases hw
      | some ws => simpa [hws] using hw
    have hle := joinedLength_words_le hinit
    simp only [joinedLength, List.length_append, List.length_singleton] at hle
    omega

theorem unquote_eq (h : Bare w) : unquote w = w := by
  rw [unquote, h.trimmed.trim_eq]
  cases w with
  | nil => rfl
  | cons c w =>
    obtain ⟨hsingle, hdouble⟩ := h.unquoted c (List.mem_cons_self ..)
    simp [hsingle, hdouble]

end Bare

end Seam

section Words

variable {before after : String}

theorem splitWords_ok_iff {cs : List Char} {ws : List (List Char)} :
    splitWords cs = .ok ws ↔ words cs = some ws := by
  refine ⟨words_of_splitWords, fun h => ?_⟩
  rw [splitWords, h]

theorem splitWords_append_blank {before after : List Char} (hclosed : Closed before)
    {ws : List (List Char)} :
    splitWords (before ++ ' ' :: after) = .ok ws ↔
      ∃ us vs, splitWords before = .ok us ∧ splitWords after = .ok vs ∧ us ++ vs = ws := by
  simp only [splitWords_ok_iff, words_append_blank hclosed.nesting (c := ' ') rfl,
    Option.bind_eq_some_iff, Option.map_eq_some_iff]
  constructor
  · rintro ⟨us, hus, vs, hvs, rfl⟩
    exact ⟨us, vs, hus, hvs, rfl⟩
  · rintro ⟨us, vs, hus, hvs, rfl⟩
    exact ⟨us, hus, vs, hvs, rfl⟩

theorem readWords_chars (text : String) :
    readWords text = splitWords text.toList >>= List.mapM fun w => readChars (unquote w) := by
  simp only [readWords, readWord_chars]

/-- The words of a closed text are read, and those of what follows it behind a blank. -/
theorem readWords_append_blank (hclosed : Closed before.toList) {es : List (List Substitution)} :
    readWords (before ++ " " ++ after) = .ok es ↔
      ∃ xs ys, readWords before = .ok xs ∧ readWords after = .ok ys ∧ xs ++ ys = es := by
  have htext : (before ++ " " ++ after).toList = before.toList ++ ' ' :: after.toList := by simp
  simp only [readWords_chars, htext, bind_ok_iff, splitWords_append_blank hclosed]
  constructor
  · rintro ⟨_, ⟨us, vs, hus, hvs, rfl⟩, h⟩
    rw [List.mapM_append] at h
    obtain ⟨xs, hxs, h⟩ := bind_ok_iff.1 h
    obtain ⟨ys, hys, h⟩ := bind_ok_iff.1 h
    exact ⟨xs, ys, ⟨us, hus, hxs⟩, ⟨vs, hvs, hys⟩, Except.ok.inj h⟩
  · rintro ⟨xs, ys, ⟨us, hus, hxs⟩, ⟨vs, hvs, hys⟩, rfl⟩
    refine ⟨_, ⟨us, vs, hus, hvs, rfl⟩, ?_⟩
    rw [List.mapM_append, hxs, hys]
    rfl

/-- A bare word is read as one word, and as a text. -/
theorem readWords_bare {program : String} (h : Bare program.toList)
    {es : List (List Substitution)} :
    readWords program = .ok es ↔ ∃ e, read program = .ok e ∧ es = [e] := by
  have hsingle : readWords program = [program.toList].mapM fun w => readChars (unquote w) := by
    rw [readWords_chars, h.single]
    rfl
  rw [hsingle, read]
  simp only [List.mapM_cons, List.mapM_nil, h.unquote_eq, bind_ok_iff, pure_bind]
  exact exists_congr fun e => and_congr_right fun _ =>
    ⟨fun heq => (Except.ok.inj heq).symm, fun heq => heq ▸ rfl⟩

end Words

end Substitution

namespace Description

open Xml (Element)
open Substitution (Bare Closed bind_ok_iff map_ok_iff)

theorem mapError_ok_iff {ε ε' α : Type} {x : Except ε α} {f : ε → ε'} {a : α} :
    x.mapError f = .ok a ↔ x = .ok a := by
  cases x <;> simp [Except.mapError]

theorem expression_ok_iff {text : String} {e : List Substitution} :
    expression text = .ok e ↔ Substitution.read text = .ok e :=
  mapError_ok_iff

theorem expressions_ok_iff {text : String} {es : List (List Substitution)} :
    expressions text = .ok es ↔ Substitution.readWords text = .ok es :=
  mapError_ok_iff

/-! ## Elements that say the same -/

/-- The attributes that both elements for processes have. -/
def commonNames : List String :=
  ["name", "namespace", "output", "critical", "if", "unless"]

/-- An element with a command, and one with the first word of this command as its program. The rest
of the command stands before `more` in the arguments of the second element. -/
structure Corresponds (program rest more : String) (executable node : Element) : Prop where
  executableName : executable.name = "executable"
  command : executable.attribute? "cmd" = some (program ++ " " ++ rest)
  furtherArguments : executable.attribute? "args" = some more
  nodeName : node.name = "node"
  executedProgram : node.attribute? "exec" = some program
  arguments : node.attribute? "args" = some (rest ++ " " ++ more)
  noPackage : node.attribute? "pkg" = none
  common : ∀ name ∈ commonNames, executable.attribute? name = node.attribute? name
  children : executable.children = node.children

section Common

variable {e n : Element}

theorem expression?_congr {name : String} (h : e.attribute? name = n.attribute? name) :
    expression? e name = expression? n name := by
  rw [expression?, expression?, h]

/-- What is common to both elements depends on the common attributes only. -/
theorem readCommon_congr (h : ∀ name ∈ commonNames, e.attribute? name = n.attribute? name) :
    readCommon e = readCommon n := by
  simp only [commonNames, List.forall_mem_cons] at h
  obtain ⟨hname, hspace, houtput, hcritical, hif, hunless, -⟩ := h
  simp only [readCommon, readConditions, Element.attributeAs?, expression?_congr hname,
    expression?_congr hspace, expression?_congr hif, expression?_congr hunless, houtput, hcritical]

/-- The element that a child stands in plays a part only where the child is refused. -/
theorem readChild_ok_iff (parent other : String) {p q : ProcessTemplate} :
    readChild parent p e = .ok q ↔ readChild other p e = .ok q := by
  unfold readChild
  split
  · rfl
  · rfl
  · rfl
  · exact ⟨nofun, nofun⟩

theorem readChildren_ok_iff (parent other : String) {children : List Element}
    {p q : ProcessTemplate} :
    children.foldlM (readChild parent) p = .ok q ↔
      children.foldlM (readChild other) p = .ok q := by
  induction children generalizing p with
  | nil => rfl
  | cons child children ih =>
    simp only [List.foldlM_cons, bind_ok_iff, readChild_ok_iff parent other, ih]

end Common

section Elements

variable {executable node : Element} {program rest more : String} {p : ProcessTemplate}

/-- A node is read when its program, its arguments and what is common to both elements are. -/
theorem readNode_ok_iff (hpackage : node.attribute? "pkg" = none)
    (hprogram : node.attribute? "exec" = some program)
    (harguments : node.attribute? "args" = some rest) :
    readNode node = .ok p ↔ ∃ e, Substitution.read program = .ok e ∧
      ∃ es, Substitution.readWords rest = .ok es ∧ ∃ common, readCommon node = .ok common ∧
        node.children.foldlM (readChild "node")
          { common with package := none, executable := e, arguments := es } = .ok p := by
  have hnone : expression? node "pkg" = .ok none := by rw [expression?, hpackage]
  have hexecutable : requiredExpression node "exec" = expression program := by
    rw [requiredExpression, Element.require, hprogram]
    rfl
  have hwords : wordList node "args" = expressions rest := by rw [wordList, harguments]
  simp only [readNode, bind_ok_iff, hnone, hexecutable, hwords, expression_ok_iff,
    expressions_ok_iff, Except.ok.injEq, exists_eq_left']

/-- An executable is read when its command has a first word, and all its words, its further
arguments and what is common to both elements are read. -/
theorem readExecutable_ok_iff {command : String}
    (hcommand : executable.attribute? "cmd" = some command)
    (hmore : executable.attribute? "args" = some more) :
    readExecutable executable = .ok p ↔ ∃ e words,
      Substitution.readWords command = .ok (e :: words) ∧
      ∃ common, readCommon executable = .ok common ∧
        ∃ es, Substitution.readWords more = .ok es ∧
          executable.children.foldlM (readChild "executable")
            { common with executable := e, arguments := words ++ es } = .ok p := by
  have hrequired : executable.require "cmd" = .ok command := by rw [Element.require, hcommand]
  have hwords : wordList executable "args" = expressions more := by rw [wordList, hmore]
  simp only [readExecutable, hrequired, bind_ok_iff, Except.ok.injEq, exists_eq_left']
  constructor
  · rintro ⟨es, hes, h⟩
    cases es with
    | nil => cases h
    | cons e words =>
      simp only [bind_ok_iff, hwords, expressions_ok_iff] at h hes
      exact ⟨e, words, hes, h⟩
  · rintro ⟨e, words, hes, h⟩
    refine ⟨e :: words, expressions_ok_iff.2 hes, ?_⟩
    simpa only [bind_ok_iff, hwords, expressions_ok_iff] using h

theorem package_of_readCommon {common : ProcessTemplate} (h : readCommon node = .ok common) :
    common.package = none := by
  simp only [readCommon, bind_ok_iff] at h
  obtain ⟨_, -, _, -, _, -, _, -, _, -, h⟩ := h
  cases h
  rfl

/-- A command on an executable means the same as its program and its arguments on a node: the one
element is read exactly when the other is, as the same process. The program has to be one word that
has no quotes and closes its parentheses, and the arguments that stand behind it in the command
have to close theirs, and their quotes. -/
theorem executable_means_node (hprogram : Bare program.toList) (hrest : Closed rest.toList)
    (h : Corresponds program rest more executable node) (action : Action) :
    readAction executable = .ok action ↔ readAction node = .ok action := by
  have hexecutable : readAction executable = .process <$> readExecutable executable := by
    rw [readAction, h.executableName]
    rfl
  have hnode : readAction node = .process <$> readNode node := by
    rw [readAction, h.nodeName]
    rfl
  have hsame : ∀ p, readExecutable executable = .ok p ↔ readNode node = .ok p := by
    intro p
    rw [readExecutable_ok_iff h.command h.furtherArguments,
      readNode_ok_iff h.noPackage h.executedProgram h.arguments, h.children,
      readCommon_congr h.common]
    constructor
    · rintro ⟨e, words, hcommand, common, hcommon, es, hes, hchildren⟩
      obtain ⟨xs, ys, hxs, hys, heq⟩ :=
        (Substitution.readWords_append_blank hprogram.closed).1 hcommand
      obtain ⟨_, he, rfl⟩ := (Substitution.readWords_bare hprogram).1 hxs
      obtain ⟨rfl, rfl⟩ := List.cons.inj heq
      refine ⟨_, he, _, (Substitution.readWords_append_blank hrest).2 ⟨ys, es, hys, hes, rfl⟩,
        common, hcommon, ?_⟩
      rw [← package_of_readCommon hcommon]
      exact (readChildren_ok_iff _ _).1 hchildren
    · rintro ⟨e, he, _, hwords, common, hcommon, hchildren⟩
      obtain ⟨ys, es, hys, hes, rfl⟩ := (Substitution.readWords_append_blank hrest).1 hwords
      refine ⟨e, ys, (Substitution.readWords_append_blank hprogram.closed).2
        ⟨[e], ys, (Substitution.readWords_bare hprogram).2 ⟨e, he, rfl⟩, hys, rfl⟩,
        common, hcommon, es, hes, ?_⟩
      rw [← package_of_readCommon hcommon] at hchildren
      exact (readChildren_ok_iff _ _).1 hchildren
  simp only [hexecutable, hnode, map_ok_iff, hsame]

end Elements

/-- A simulator with arguments in its command, further ones behind it, and the last one in a
child. -/
def simulator : Element :=
  .mk "executable" [
    ⟨none, "cmd", "gzserver --verbose $(var world)"⟩,
    ⟨none, "name", "simulator"⟩,
    ⟨none, "args", "'two words' -z"⟩]
    [.mk "arg" [⟨none, "value", "last"⟩] []]

def simulatorNode : Element :=
  .mk "node" [
    ⟨none, "name", "simulator"⟩,
    ⟨none, "exec", "gzserver"⟩,
    ⟨none, "args", "--verbose $(var world) 'two words' -z"⟩]
    [.mk "arg" [⟨none, "value", "last"⟩] []]

def simulatorProcess : ProcessTemplate where
  executable := [.text "gzserver"]
  name := some [.text "simulator"]
  arguments := [[.text "--verbose"], [.argument "world"], [.text "two words"], [.text "-z"],
    [.text "last"]]

theorem simulator_means_node :
    Corresponds "gzserver" "--verbose $(var world)" "'two words' -z" simulator simulatorNode ∧
      readAction simulator = .ok (.process simulatorProcess) ∧
      readAction simulatorNode = .ok (.process simulatorProcess) := by
  have hprogram : Bare "gzserver".toList := ⟨by decide, by decide, by simp⟩
  have hrest : Closed "--verbose $(var world)".toList :=
    ⟨⟨["--verbose".toList, "$(var world)".toList], by decide⟩, by decide⟩
  have hsame : Corresponds "gzserver" "--verbose $(var world)" "'two words' -z" simulator
      simulatorNode :=
    { executableName := rfl
      command := by decide
      furtherArguments := by decide
      nodeName := rfl
      executedProgram := by decide
      arguments := by decide
      noPackage := by decide
      common := by decide
      children := rfl }
  have hread : readAction simulator = .ok (.process simulatorProcess) := by rfl
  exact ⟨hsame, hread, (executable_means_node hprogram hrest hsame _).1 hread⟩

end Description

end LaunchPlan
