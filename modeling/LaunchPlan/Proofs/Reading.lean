import LaunchPlan.Substitution.Reader
import Mathlib.Data.List.Forall2

/-!
# Reading without bounds

The reader of a text bounds the length of the texts that it reads on the way. The bound plays no
part in what is read: a text is read piece by piece, and the words of a call are read like texts.
-/

namespace LaunchPlan.Substitution

/-- The reader for the texts inside of a text, whatever their length. -/
abbrev nestedChars {bound : Nat} : Nested bound :=
  fun cs _ => readChars cs

/-- By induction on one of the limits, as the reader recurses on it. -/
theorem readWithin_limit {m n : Nat} {cs : List Char} (hm : cs.length < m) (hn : cs.length < n) :
    readWithin m cs hm = readWithin n cs hn := by
  induction m generalizing n cs with
  | zero => exact absurd hm (Nat.not_lt_zero _)
  | succ m ih =>
    cases n with
    | zero => exact absurd hn (Nat.not_lt_zero _)
    | succ n =>
      rw [readWithin, readWithin]
      split
      · rfl
      · congr 1
        funext ⟨piece, hp⟩
        cases piece with
        | literal t => rfl
        | unclosed => rfl
        | body b =>
          have hb : b.length < cs.length := length_body_lt hp
          refine congrArg (readBody b) (funext fun ds => funext fun hds => ?_)
          exact ih (by omega) (by omega)

/-- The expression for one piece of `text`. -/
def readPiece (text : List Char) : Piece → Except Malformed Substitution
  | .literal cs => .ok (.text (String.ofList cs))
  | .unclosed => .error (.unmatchedParentheses (String.ofList text))
  | .body body => readBody body nestedChars

@[simp] theorem readChars_nil : readChars [] = .ok [text ""] := rfl

/-- A text is read piece by piece. -/
theorem readChars_eq {cs : List Char} (hne : cs ≠ []) :
    readChars cs = (pieces cs).mapM (readPiece cs) := by
  have hempty : ¬ cs.isEmpty = true := by simpa using hne
  rw [readChars, readWithin, if_neg hempty, List.mapM_subtype (g := readPiece cs),
    List.unattach_attach]
  intro piece hp
  cases piece with
  | literal t => rfl
  | unclosed => rfl
  | body b =>
    have hb : b.length < cs.length := length_body_lt hp
    refine congrArg (readBody b) (funext fun ds => funext fun hds => ?_)
    exact readWithin_limit (by omega) (by omega)

/-- The piece is read as the expression, whatever text it stands in. -/
def ReadAs (piece : Piece) (e : Substitution) : Prop :=
  ∀ text, readPiece text piece = .ok e

theorem readAs_of_ok {text : List Char} {piece : Piece} {e : Substitution}
    (h : readPiece text piece = .ok e) : ReadAs piece e := by
  cases piece with
  | literal cs => exact fun _ => h
  | body b => exact fun _ => h
  | unclosed => cases h

theorem bind_ok_iff {ε α β : Type} {x : Except ε α} {f : α → Except ε β} {b : β} :
    x >>= f = .ok b ↔ ∃ a, x = .ok a ∧ f a = .ok b := by
  cases x with
  | error e => exact ⟨nofun, nofun⟩
  | ok a => exact ⟨fun h => ⟨a, rfl, h⟩, fun ⟨_, ha, h⟩ => Except.ok.inj ha ▸ h⟩

theorem map_ok_iff {ε α β : Type} {x : Except ε α} {f : α → β} {b : β} :
    f <$> x = .ok b ↔ ∃ a, x = .ok a ∧ f a = b := by
  cases x with
  | error e => exact ⟨nofun, nofun⟩
  | ok a =>
    constructor
    · exact fun h => ⟨a, rfl, Except.ok.inj h⟩
    · rintro ⟨_, ha, rfl⟩
      exact Except.ok.inj ha ▸ rfl

theorem mapM_ok_iff {ε α β : Type} {f : α → Except ε β} {xs : List α} {ys : List β} :
    xs.mapM f = .ok ys ↔ List.Forall₂ (fun x y => f x = .ok y) xs ys := by
  induction xs generalizing ys with
  | nil =>
    rw [List.mapM_nil, List.forall₂_nil_left_iff]
    exact ⟨fun h => (Except.ok.inj h).symm, fun h => h ▸ rfl⟩
  | cons x xs ih =>
    rw [List.mapM_cons, List.forall₂_cons_left_iff]
    constructor
    · intro h
      cases hx : f x with
      | error e => rw [hx] at h; cases h
      | ok y =>
        cases hxs : xs.mapM f with
        | error e => rw [hx, hxs] at h; cases h
        | ok zs =>
          rw [hx, hxs] at h
          exact ⟨y, zs, rfl, ih.1 hxs, (Except.ok.inj h).symm⟩
    · rintro ⟨y, zs, hx, hxs, rfl⟩
      rw [hx, ih.2 hxs]
      rfl

/-- A text that is not empty is read where each of its pieces is. -/
theorem readChars_ok_iff {cs : List Char} (hne : cs ≠ []) {es : List Substitution} :
    readChars cs = .ok es ↔ List.Forall₂ ReadAs (pieces cs) es := by
  rw [readChars_eq hne, mapM_ok_iff]
  constructor
  · exact List.Forall₂.imp fun _ _ => readAs_of_ok
  · exact List.Forall₂.imp fun _ _ h => h cs

section Words

/-- A word is read as the text between its quotes. -/
theorem readWord_chars (word : List Char) :
    readWord word nestedChars = readChars (unquote word) := by
  rw [readWord]
  split
  · next h => rw [List.isEmpty_iff.1 h, readChars_nil]
  · rfl

theorem readBody_chars (body : List Char) :
    readBody body nestedChars =
      readKind (String.ofList (kindAndArguments body).1) (kindAndArguments body).2 nestedChars :=
  rfl

/-- The expression for one operand. -/
def operandOf (word : List Char) : Except Malformed Substitution :=
  ofParts <$> readChars (unquote word)

/-- The variable that the first word names; the others are its default. -/
def variableOf : List (List Char) → Except Malformed Substitution
  | [] => .error .variableNameMissing
  | [name] => .ok (.env (String.ofList (unquote name)) none)
  | name :: rest => do
    let default ← readChars (unquote (joinWords rest))
    .ok (.env (String.ofList (unquote name)) (some default))

/-- The key and the value of one case. -/
def caseOf (word : List Char) : Except Malformed (List Char × Substitution) :=
  match cutCase 0 word with
  | none => .error (.notKeyValue (String.ofList word))
  | some (key, value) => do
    let value ← operandOf value
    .ok (key, value)

/-- The selector on the first word; the others are its cases. -/
def selectionOf : List (List Char) → Except Malformed Substitution
  | [] => .error .conditionMissing
  | [_] => .error .casesMissing
  | first :: words => do
    let condition ← operandOf first
    let cases ← words.mapM caseOf
    .ok (.select (selectorOf condition cases))

theorem readOperands_chars (arguments : List Char) :
    readOperands arguments nestedChars = splitWords arguments >>= List.mapM operandOf := by
  unfold readOperands
  split
  · next e h => exact (congrArg (· >>= List.mapM operandOf) h).symm
  · next ws h =>
    refine Eq.trans ?_ (congrArg (· >>= List.mapM operandOf) h).symm
    rw [List.mapM_subtype (g := operandOf), List.unattach_attach]
    · rfl
    · exact fun word hw => congrArg (ofParts <$> ·) (readWord_chars word)

theorem readEnv_chars (arguments : List Char) :
    readEnv arguments nestedChars = splitWords arguments >>= variableOf := by
  unfold readEnv
  split
  · next e h => exact (congrArg (· >>= variableOf) h).symm
  · next h => exact (congrArg (· >>= variableOf) h).symm
  · next name h => exact (congrArg (· >>= variableOf) h).symm
  · next name rest hrest h =>
    refine Eq.trans ?_ (congrArg (· >>= variableOf) h).symm
    obtain ⟨word, rest, rfl⟩ := List.exists_cons_of_ne_nil fun hnil => hrest hnil
    rw [readWord_chars]
    rfl

theorem readCase_chars (word : List Char) : readCase word nestedChars = caseOf word := by
  unfold readCase
  split
  · next h => rw [caseOf, h]
  · next key value h =>
    have hcase : caseOf word = operandOf value >>= fun e => .ok (key, e) := by
      rw [caseOf, h]
    rw [hcase, operandOf, bind_map_left, readWord_chars]

theorem readSelect_chars (arguments : List Char) :
    readSelect arguments nestedChars = splitWords arguments >>= selectionOf := by
  unfold readSelect
  split
  · next e h => exact (congrArg (· >>= selectionOf) h).symm
  · next h => exact (congrArg (· >>= selectionOf) h).symm
  · next w h => exact (congrArg (· >>= selectionOf) h).symm
  · next first case rest h =>
    refine Eq.trans ?_ (congrArg (· >>= selectionOf) h).symm
    have hcases : (case :: rest).attach.mapM (fun word => readCase word.1 nestedChars) =
        (case :: rest).mapM caseOf := by
      rw [List.mapM_subtype (g := caseOf), List.unattach_attach]
      exact fun word hw => readCase_chars word
    change readWord first nestedChars >>= _ = (operandOf first >>= _)
    rw [operandOf, bind_map_left, readWord_chars, ← hcases]

end Words

end LaunchPlan.Substitution
