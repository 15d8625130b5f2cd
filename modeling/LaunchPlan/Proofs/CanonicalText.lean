import LaunchPlan.Proofs.BalancedText
import Mathlib.Data.List.Chain

/-!
# The canonical text of expressions

Every list of expressions in normal form has a text of its own, which is read back as that list.
A normal list has no two literals side by side, as these would be read as one, and its literals
have none of the characters that mean something to the reader.
-/

namespace LaunchPlan.Substitution

/-- The body of `$(KIND WORD ...)`. -/
def callBody (kind : String) (words : List (List Char)) : List Char :=
  kind.toList ++ ' ' :: joinWords words

/-- `$(KIND WORD ...)` -/
def call (kind : String) (words : List (List Char)) : List Char :=
  '$' :: '(' :: (callBody kind words ++ [')'])

mutual

/-- The text of an expression. -/
def write : Substitution → List Char
  | text s => s.toList
  | .env name default => call "env" (name.toList :: writeDefault default)
  | argument name => call "var" [name.toList]
  | command parts => call "command" [writeAll parts]
  | concat parts => writeAll parts
  | pathJoin parts => call "path-join" (writeEach parts)
  | findPackageShare parts => call "find-pkg-share" [writeAll parts]
  | select ⟨condition, cases, default⟩ =>
    call "select" (write condition :: (writeCases cases ++ writeOption default))

/-- The text of a list of expressions. -/
def writeAll : List Substitution → List Char
  | [] => []
  | part :: parts => write part ++ writeAll parts

/-- One word for each expression. -/
def writeEach : List Substitution → List (List Char)
  | [] => []
  | part :: parts => write part :: writeEach parts

def writeDefault : Option (List Substitution) → List (List Char)
  | none => []
  | some parts => [writeAll parts]

/-- `KEY=VALUE` for each case. -/
def writeCases : List (String × Substitution) → List (List Char)
  | [] => []
  | (key, value) :: cases => (key.toList ++ '=' :: write value) :: writeCases cases

/-- `*=DEFAULT` -/
def writeOption : Option Substitution → List (List Char)
  | none => []
  | some value => [wildcard.toList ++ '=' :: write value]

end

/-- A character that means nothing to the reader. -/
def isPlainChar (c : Char) : Bool :=
  !isDelimiter c && !Text.isBlank c && c ≠ '$' && c ≠ '='

def Plain (s : String) : Prop :=
  s ≠ "" ∧ ∀ c ∈ s.toList, isPlainChar c = true

instance : DecidablePred Plain :=
  fun s => decidable_of_iff (s ≠ "" ∧ s.toList.all isPlainChar = true) (by simp [Plain])

/-- A text with plain characters and blanks. -/
def Spaced (s : String) : Prop :=
  s ≠ "" ∧ ∀ c ∈ s.toList, isPlainChar c = true ∨ Text.isBlank c = true

instance : DecidablePred Spaced :=
  fun s => decidable_of_iff
    (s ≠ "" ∧ s.toList.all (fun c => isPlainChar c || Text.isBlank c) = true) (by simp [Spaced])

def isText : Substitution → Bool
  | text _ => true
  | _ => false

/-- No two literals stand side by side. -/
def Separate (parts : List Substitution) : Prop :=
  parts.IsChain fun first second => first.isText = true → second.isText = false

instance : DecidablePred Separate :=
  fun parts => inferInstanceAs (Decidable (parts.IsChain _))

/-- Where an expression stands. -/
inductive Place
  /-- In a list of expressions. -/
  | list
  /-- In the line of a command. -/
  | command
  /-- In a place of its own, as one word. -/
  | operand

/-- Expressions in normal form. -/
inductive Normal : Place → Substitution → Prop
  | text {s : String} : Plain s → Normal .list (.text s)
  | argument {name : String} : Plain name → Normal .list (.argument name)
  | env {name : String} : Plain name → Normal .list (.env name none)
  | envOr {name : String} {parts : List Substitution} : Plain name → parts ≠ [] → Separate parts →
      (∀ part ∈ parts, Normal .list part) → Normal .list (.env name (some parts))
  | command {parts : List Substitution} : parts ≠ [] → Separate parts →
      (∀ part ∈ parts, Normal .command part) → Trimmed (writeAll parts) →
      Normal .list (.command parts)
  | findPackageShare {parts : List Substitution} : parts ≠ [] → Separate parts →
      (∀ part ∈ parts, Normal .list part) → Normal .list (.findPackageShare parts)
  | pathJoin {parts : List Substitution} : parts ≠ [] → (∀ part ∈ parts, Normal .operand part) →
      Normal .list (.pathJoin parts)
  | select {condition : Substitution} {cases : List (String × Substitution)}
      {default : Option Substitution} : Normal .operand condition →
      (∀ c ∈ cases, Plain c.1 ∧ c.1 ≠ wildcard) → (∀ c ∈ cases, Normal .operand c.2) →
      (∀ value ∈ default, Normal .operand value) → cases ≠ [] ∨ default.isSome = true →
      Normal .list (.select ⟨condition, cases, default⟩)
  /-- The line of a command may have blanks. -/
  | spaced {s : String} : Spaced s → Normal .command (.text s)
  | inCommand {e : Substitution} : Normal .list e → Normal .command e
  | alone {e : Substitution} : Normal .list e → Normal .operand e
  /-- Several expressions are one word together. -/
  | concat {parts : List Substitution} : 2 ≤ parts.length → Separate parts →
      (∀ part ∈ parts, Normal .list part) → Normal .operand (.concat parts)

/-- Lists of expressions in normal form. -/
structure NormalList (place : Place) (parts : List Substitution) : Prop where
  nonempty : parts ≠ []
  separate : Separate parts
  normal : ∀ part ∈ parts, Normal place part

theorem NormalList.inCommand {parts : List Substitution} (h : NormalList .list parts) :
    NormalList .command parts :=
  ⟨h.nonempty, h.separate, fun part hp => .inCommand (h.normal part hp)⟩

theorem isPlainChar_iff {c : Char} : isPlainChar c = true ↔
    isDelimiter c = false ∧ Text.isBlank c = false ∧ c ≠ '$' ∧ c ≠ '=' := by
  simp [isPlainChar, and_assoc]

theorem Plain.chars {s : String} (h : Plain s) : ∀ c ∈ s.toList,
    isDelimiter c = false ∧ Text.isBlank c = false ∧ c ≠ '$' ∧ c ≠ '=' :=
  fun c hc => isPlainChar_iff.1 (h.2 c hc)

theorem Plain.not_blank {s : String} (h : Plain s) : ∀ c ∈ s.toList, Text.isBlank c = false :=
  fun c hc => (h.chars c hc).2.1

theorem Plain.word {s : String} (h : Plain s) : Word s.toList where
  balanced := .of_forall fun c hc => ⟨(h.chars c hc).1, h.not_blank c hc⟩
  nonempty := fun hs => h.1 (String.toList_eq_nil_iff.1 hs)

theorem Spaced.chars {s : String} (h : Spaced s) :
    ∀ c ∈ s.toList, isDelimiter c = false ∧ c ≠ '$' := by
  intro c hc
  rcases h.2 c hc with hp | hb
  · have hplain := isPlainChar_iff.1 hp
    exact ⟨hplain.1, hplain.2.2.1⟩
  · exact not_delimiter_of_isBlank hb

theorem Plain.spaced {s : String} (h : Plain s) : Spaced s :=
  ⟨h.1, fun c hc => .inl (h.2 c hc)⟩

section Writing

theorem writeAll_balanced {outer : Char → Prop} {parts : List Substitution}
    (h : ∀ part ∈ parts, Balanced outer (write part)) : Balanced outer (writeAll parts) := by
  induction parts with
  | nil => exact .nil
  | cons part parts ih =>
    obtain ⟨hpart, hparts⟩ := List.forall_mem_cons.1 h
    exact hpart.append (ih hparts)

theorem joinWords_balanced {ws : List (List Char)} (h : ∀ w ∈ ws, Balanced (fun _ => True) w) :
    Balanced (fun _ => True) (joinWords ws) := by
  induction ws with
  | nil => exact .nil
  | cons w ws ih =>
    obtain ⟨hw, hws⟩ := List.forall_mem_cons.1 h
    cases ws with
    | nil => simpa using hw
    | cons v ws =>
      rw [joinWords_cons_cons]
      exact hw.append (.char (by decide) trivial (ih hws))

/-- The kinds of expressions that are written in parentheses. -/
def kinds : List String :=
  ["env", "var", "command", "path-join", "find-pkg-share", "select"]

theorem plain_of_mem_kinds : ∀ kind ∈ kinds, Plain kind := by decide

theorem callBody_balanced {kind : String} {ws : List (List Char)} (hk : kind ∈ kinds)
    (h : ∀ w ∈ ws, Balanced (fun _ => True) w) : Balanced (fun _ => True) (callBody kind ws) :=
  (plain_of_mem_kinds kind hk).word.balanced.inside.append
    (.char (by decide) trivial (joinWords_balanced h))

/-- An expression in parentheses is a word. -/
theorem call_word {kind : String} {ws : List (List Char)} (hk : kind ∈ kinds)
    (h : ∀ w ∈ ws, Balanced (fun _ => True) w) : Word (call kind ws) where
  balanced := .char (by decide) (by decide) (.group (callBody_balanced hk h) .nil)
  nonempty := List.cons_ne_nil _ _

/-- The characters that stand outside of parentheses. -/
def Place.outer : Place → Char → Prop
  | .command, _ => True
  | _, c => Text.isBlank c = false

theorem writeEach_eq (parts : List Substitution) : writeEach parts = parts.map write := by
  induction parts with
  | nil => rfl
  | cons part parts ih => rw [writeEach, ih, List.map_cons]

/-- `KEY=VALUE` -/
def caseWord (c : String × Substitution) : List Char :=
  c.1.toList ++ '=' :: write c.2

/-- The cases of a selector, its default under the key `*` as the last one. -/
def entries (cases : List (String × Substitution)) (default : Option Substitution) :
    List (String × Substitution) :=
  cases ++ default.toList.map fun value => (wildcard, value)

theorem writeCases_append (cases : List (String × Substitution)) (default : Option Substitution) :
    writeCases cases ++ writeOption default = (entries cases default).map caseWord := by
  induction cases with
  | nil => cases default <;> rfl
  | cons c cases ih =>
    rw [writeCases, List.cons_append, ih]
    rfl

theorem plain_wildcard : Plain wildcard := by decide

theorem forall_entries {Q : Substitution → Prop} {cases : List (String × Substitution)}
    {default : Option Substitution} (hkeys : ∀ c ∈ cases, Plain c.1 ∧ c.1 ≠ wildcard)
    (hcases : ∀ c ∈ cases, Q c.2) (hdefault : ∀ value ∈ default, Q value) :
    ∀ c ∈ entries cases default, Plain c.1 ∧ Q c.2 := by
  intro c hc
  rcases List.mem_append.1 hc with hc | hc
  · exact ⟨(hkeys c hc).1, hcases c hc⟩
  · obtain ⟨value, hv, rfl⟩ := List.mem_map.1 hc
    exact ⟨plain_wildcard, hdefault value (Option.mem_toList.1 hv)⟩

theorem caseWord_word {c : String × Substitution} (hk : Plain c.1) (hv : Word (write c.2)) :
    Word (caseWord c) where
  balanced := hk.word.balanced.append (.char (by decide) (by decide) hv.balanced)
  nonempty := by simp [caseWord]

theorem writeAll_ne_nil {parts : List Substitution} (hne : parts ≠ [])
    (h : ∀ part ∈ parts, write part ≠ []) : writeAll parts ≠ [] := by
  obtain ⟨part, parts, rfl⟩ := List.exists_cons_of_ne_nil hne
  rw [writeAll]
  exact List.append_ne_nil_of_left_ne_nil (h part (List.mem_cons_self ..)) _

/-- An expression is written as `$(KIND WORD ...)`, with balanced words. -/
def IsCall (e : Substitution) : Prop :=
  ∃ kind ws, write e = call kind ws ∧ kind ∈ kinds ∧ ∀ w ∈ ws, Balanced (fun _ => True) w

/-- What is written is balanced, and not empty. -/
structure Written (place : Place) (e : Substitution) : Prop where
  balanced : Balanced place.outer (write e)
  nonempty : write e ≠ []
  call : place = .list → e.isText = false → IsCall e

theorem IsCall.written {e : Substitution} (h : IsCall e) : Written .list e := by
  obtain ⟨kind, ws, hw, hk, hws⟩ := id h
  have hword := call_word hk hws
  rw [← hw] at hword
  exact ⟨hword.balanced, hword.nonempty, fun _ _ => h⟩

theorem Written.word {e : Substitution} (h : Written .operand e) : Word (write e) :=
  ⟨h.balanced, h.nonempty⟩

theorem Normal.written {place : Place} {e : Substitution} (h : Normal place e) :
    Written place e := by
  induction h with
  | text hs => exact ⟨hs.word.balanced, hs.word.nonempty, fun _ ht => by cases ht⟩
  | argument hn =>
    have hname := hn.word.balanced.inside
    exact IsCall.written ⟨"var", _, rfl, by simp [kinds], by simpa using hname⟩
  | env hn =>
    have hname := hn.word.balanced.inside
    exact IsCall.written ⟨"env", _, rfl, by simp [kinds], by simpa [writeDefault] using hname⟩
  | envOr hn _ _ _ ih =>
    have hname := hn.word.balanced.inside
    have hdefault := writeAll_balanced fun part hp => (ih part hp).balanced.inside
    exact IsCall.written ⟨"env", _, rfl, by simp [kinds],
      by simpa [writeDefault] using ⟨hname, hdefault⟩⟩
  | command _ _ _ _ ih =>
    have hline := writeAll_balanced fun part hp => (ih part hp).balanced.inside
    exact IsCall.written ⟨"command", _, rfl, by simp [kinds], by simpa using hline⟩
  | findPackageShare _ _ _ ih =>
    have hpackage := writeAll_balanced fun part hp => (ih part hp).balanced.inside
    exact IsCall.written ⟨"find-pkg-share", _, rfl, by simp [kinds], by simpa using hpackage⟩
  | pathJoin _ _ ih =>
    refine IsCall.written ⟨"path-join", _, rfl, by simp [kinds], fun w hw => ?_⟩
    rw [writeEach_eq] at hw
    obtain ⟨part, hp, rfl⟩ := List.mem_map.1 hw
    exact (ih part hp).balanced.inside
  | select _ hkeys _ _ _ ihc ihs ihd =>
    refine IsCall.written ⟨"select", _, rfl, by simp [kinds], ?_⟩
    rw [writeCases_append, List.forall_mem_cons]
    refine ⟨ihc.balanced.inside, fun w hw => ?_⟩
    obtain ⟨c, hc, rfl⟩ := List.mem_map.1 hw
    obtain ⟨hk, hv⟩ := forall_entries hkeys ihs ihd c hc
    exact (caseWord_word hk hv.word).balanced.inside
  | @spaced s hs =>
    have hne : s.toList ≠ [] := fun h => hs.1 (String.toList_eq_nil_iff.1 h)
    exact ⟨.of_forall fun c hc => ⟨(hs.chars c hc).1, trivial⟩, hne, by rintro ⟨⟩⟩
  | inCommand _ ih => exact ⟨ih.balanced.inside, ih.nonempty, by rintro ⟨⟩⟩
  | alone _ ih => exact ⟨ih.balanced, ih.nonempty, by rintro ⟨⟩⟩
  | concat hlen _ _ ih =>
    have hne := writeAll_ne_nil (List.ne_nil_of_length_pos (by omega)) fun part hp =>
      (ih part hp).nonempty
    exact ⟨writeAll_balanced fun part hp => (ih part hp).balanced, hne, by rintro ⟨⟩⟩

end Writing

section Pieces

theorem Normal.spaced_of_text {s : String} (h : Normal .command (.text s)) : Spaced s := by
  cases h with
  | spaced hs => exact hs
  | inCommand h =>
    cases h with
    | text hs => exact hs.spaced

theorem Normal.of_command {e : Substitution} (h : Normal .command e) (ht : e.isText = false) :
    Normal .list e := by
  cases h with
  | spaced hs => cases ht
  | inCommand h => exact h

theorem Normal.isCall {e : Substitution} (h : Normal .list e) (ht : e.isText = false) : IsCall e :=
  h.written.call rfl ht

/-- The piece of a text that an expression is written as. -/
def piece : Substitution → Piece
  | text s => .literal s.toList
  | e => .body ((write e).drop 2).dropLast

theorem exists_of_isText {e : Substitution} (h : e.isText = true) : ∃ s, e = text s := by
  cases e <;> first | exact ⟨_, rfl⟩ | cases h

theorem piece_of_isText {e : Substitution} (h : e.isText = false) :
    piece e = .body ((write e).drop 2).dropLast := by
  cases e <;> first | rfl | cases h

/-- A normal list is cut into the pieces that were put together. -/
theorem pieces_writeAll {parts : List Substitution} (hsep : Separate parts)
    (h : ∀ part ∈ parts, Normal .command part) : pieces (writeAll parts) = parts.map piece := by
  induction parts with
  | nil => rfl
  | cons e parts ih =>
    obtain ⟨he, hparts⟩ := List.forall_mem_cons.1 h
    have hrest := ih hsep.tail hparts
    rw [pieces] at hrest ⊢
    cases ht : e.isText with
    | false =>
      obtain ⟨kind, ws, hw, hk, hws⟩ := (he.of_command ht).isCall ht
      rw [List.map_cons, piece_of_isText ht, writeAll, hw, ← hrest, call]
      simp only [List.cons_append, List.append_assoc, List.nil_append]
      rw [piecesFrom_body ((callBody_balanced hk hws).depthAfter 0)]
      simp
    | true =>
      obtain ⟨s, rfl⟩ := exists_of_isText ht
      have hs := he.spaced_of_text
      rw [List.map_cons, piece, ← hrest]
      refine piecesFrom_literal (fun c hc => (hs.chars c hc).2)
        (fun h => hs.1 (String.toList_eq_nil_iff.1 h)) fun ds => ?_
      -- What follows a literal is none.
      rw [hrest]
      cases parts with
      | nil => simp
      | cons p parts =>
        have hp : p.isText = false := (List.isChain_cons_cons.1 hsep).1 rfl
        simp [piece_of_isText hp]

end Pieces

end LaunchPlan.Substitution
