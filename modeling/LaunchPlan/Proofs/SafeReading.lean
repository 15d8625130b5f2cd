import LaunchPlan.Proofs.Concatenation
import LaunchPlan.Proofs.Slices

/-!
# Safe reading

Expressions are read by cutting texts at places, and by reading the texts inside of a text again.
The reader here tells of each step whether something is wrong with it: a cut that is not possible, a
text inside of a `$(...)` that is not shorter than the `$(...)`, and more texts inside of each other
than there is room for. None of this happens, whatever the text.
-/

namespace LaunchPlan.Substitution

open String (utf8Len)

/-! ## The reader -/

/-- A reader for the texts inside of a text. -/
abbrev Inner : Type :=
  List Char → Except Halt (List Substitution)

/-- Reads only what is shorter than the `$(...)` around the body. -/
def within (body : List Char) (inner : Inner) : Inner := fun cs =>
  if utf8Len cs < utf8Len ('$' :: '(' :: (body ++ [')'])) then inner cs else .error .notShorter

def wordSliced (inner : Inner) (word : List Char) : Except Halt (List Substitution) := do
  let cs ← unquoteSliced word
  if cs.isEmpty then return [.text ""] else inner cs

def operandSliced (inner : Inner) (word : List Char) : Except Halt Substitution :=
  ofParts <$> wordSliced inner word

def unquotedSliced (inner : Inner) (arguments : List Char) : Except Halt (List Substitution) := do
  let cs ← unquoteSliced arguments
  inner cs

def variableSliced (inner : Inner) : List (List Char) → Except Halt Substitution
  | [] => .error (.malformed .variableNameMissing)
  | name :: rest => do
    let default ← if rest.isEmpty then pure none else some <$> wordSliced inner (joinWords rest)
    let name ← unquoteSliced name
    return .env (String.ofList name) default

/-- Adds one `KEY=VALUE` to a selector. -/
def addCase (inner : Inner) (selector : Selector Substitution Substitution) (word : List Char) :
    Except Halt (Selector Substitution Substitution) := do
  match ← cutCaseSliced word with
  | none => .error (.malformed (.notKeyValue (String.ofList word)))
  | some (key, value) =>
    let value ← operandSliced inner value
    if key = wildcard.toList then return selector.otherwise value
    else
      let key ← unquoteSliced key
      return selector.case (String.ofList key) value

def selectionSliced (inner : Inner) : List (List Char) → Except Halt Substitution
  | [] => .error (.malformed .conditionMissing)
  | [_] => .error (.malformed .casesMissing)
  | first :: words => do
    let condition ← operandSliced inner first
    let selector ← words.foldlM (addCase inner) { condition }
    return .select selector

def needsArgument (kind : String) (arguments : List Char) (read : Except Halt Substitution) :
    Except Halt Substitution :=
  if arguments.isEmpty then .error (.malformed (.argumentMissing kind)) else read

def kindSliced (inner : Inner) (kind : String) (arguments : List Char) :
    Except Halt Substitution :=
  match kind with
  | "" => .error (.malformed .empty)
  | "var" => needsArgument kind arguments (checked (readArgument arguments))
  | "env" => needsArgument kind arguments (splitSliced arguments >>= variableSliced inner)
  | "command" => needsArgument kind arguments (command <$> unquotedSliced inner arguments)
  | "find-pkg-share" =>
    needsArgument kind arguments (findPackageShare <$> unquotedSliced inner arguments)
  | "path-join" =>
    needsArgument kind arguments
      (pathJoin <$> (splitSliced arguments >>= List.mapM (operandSliced inner)))
  | "select" => needsArgument kind arguments (splitSliced arguments >>= selectionSliced inner)
  | _ => .error (.malformed (.unknownKind kind))

def bodySliced (inner : Inner) (body : List Char) : Except Halt Substitution :=
  kindSliced (within body inner) (String.ofList (kindAndArguments body).1)
    (kindAndArguments body).2

/-- The expressions of a text, with room for fewer than `limit` texts inside of each other. -/
def readSlicedWithin : (limit : Nat) → Inner
  | 0, _ => .error .tooDeep
  | limit + 1, cs => do
    let es ← scanFrom (bodySliced (readSlicedWithin limit)) cs 0 none 0 cs
    return if es.isEmpty then [.text (String.ofList cs)] else es

/-- The expressions of a text, with room for as many texts inside of each other as it has
characters. -/
def readSliced (text : String) : Except Halt (List Substitution) :=
  readSlicedWithin (text.length + 1) text.toList

/-! ## Texts inside of a text -/

/-- A text is not longer than another one, neither in characters nor in bytes. -/
structure Fits (cs body : List Char) : Prop where
  length : cs.length ≤ body.length
  size : utf8Len cs ≤ utf8Len body

theorem Fits.trans {cs ds body : List Char} (h : Fits cs ds) (k : Fits ds body) : Fits cs body :=
  ⟨h.length.trans k.length, h.size.trans k.size⟩

theorem Fits.of_sublist {cs body : List Char} (h : cs.Sublist body) : Fits cs body :=
  ⟨h.length_le, String.utf8Len_le_of_sublist h⟩

theorem trim_sublist (cs : List Char) : (Text.trim cs).Sublist cs := by
  have hend : ∀ ds, (Text.trimEnd ds).Sublist ds := fun ds => by
    rw [trimEnd_eq_rdropWhile]
    exact (List.rdropWhile_prefix ..).sublist
  exact (hend _).trans (List.dropWhile_sublist _)

theorem cutAtBlank_sublist {cs front rest : List Char}
    (h : Text.cutAtBlank cs = some (front, rest)) : rest.Sublist cs := by
  induction cs generalizing front with
  | nil => cases h
  | cons c cs ih =>
    rw [Text.cutAtBlank] at h
    split at h
    · cases h
      exact List.sublist_cons_self _ _
    · obtain ⟨⟨front, rest⟩, hcut, heq⟩ := Option.map_eq_some_iff.mp h
      cases heq
      exact (ih hcut).cons c

theorem arguments_sublist (body : List Char) : (kindAndArguments body).2.Sublist body := by
  unfold kindAndArguments
  split
  · next kind rest h =>
    exact ((trim_sublist rest).trans (cutAtBlank_sublist h)).trans (trim_sublist body)
  · exact List.nil_sublist body

theorem unquote_sublist (cs : List Char) : (unquote cs).Sublist cs := by
  refine List.Sublist.trans ?_ (trim_sublist cs)
  unfold unquote
  split
  · exact List.nil_sublist _
  · next q rest heq =>
    rw [heq]
    split
    · exact (List.dropLast_sublist rest).cons q
    · exact List.Sublist.refl _

theorem value_sublist {depth : Nat} {cs key value : List Char}
    (h : cutCase depth cs = some (key, value)) : value.Sublist cs := by
  induction cs generalizing depth key with
  | nil => cases h
  | cons c cs ih =>
    rw [cutCase] at h
    split at h
    · cases h
      exact List.sublist_cons_self _ _
    · obtain ⟨⟨key, value⟩, hcut, heq⟩ := Option.map_eq_some_iff.mp h
      cases heq
      exact (ih hcut).cons c

/-- A blank stands after every word but the last one. -/
theorem utf8Len_wordsFrom_le {s : WordState} {cs : List Char} {ws : List (List Char)}
    (hs : s.Sound) (h : wordsFrom s cs = some ws) :
    utf8Len ws.flatten + ws.length ≤ utf8Len cs + 1 := by
  induction cs generalizing s ws with
  | nil =>
    cases hq : s.quote <;> cases hw : s.inWord <;> simp [wordsFrom, hq, hw] at h <;>
      subst h <;> simp
  | cons c cs ih =>
    have hmarks := hs.marks c
    have hnext := hs.step c
    have hc := c.utf8Size_pos
    rw [wordsFrom] at h
    generalize s.step c = result at h hmarks hnext
    obtain ⟨next, mark⟩ := result
    cases hmarks with
    | keep hopen =>
      obtain ⟨vs, hvs, rfl⟩ := Option.map_eq_some_iff.mp h
      have hle := ih hnext hvs
      obtain ⟨v, vs, rfl⟩ := List.exists_cons_of_ne_nil (wordsFrom_ne_nil hnext hopen hvs)
      simp only [consWord, List.flatten_cons, List.length_cons, String.utf8Len_append,
        String.utf8Len_cons] at hle ⊢
      omega
    | skip =>
      have hle := ih hnext h
      rw [String.utf8Len_cons]
      omega
    | finish =>
      obtain ⟨vs, hvs, rfl⟩ := Option.map_eq_some_iff.mp h
      have hle := ih hnext hvs
      rw [List.flatten_cons, List.nil_append, List.length_cons, String.utf8Len_cons]
      omega

theorem utf8Len_joinWords_le (ws : List (List Char)) :
    utf8Len (joinWords ws) ≤ utf8Len ws.flatten + ws.length := by
  induction ws with
  | nil => exact Nat.le_refl _
  | cons w ws ih =>
    cases ws with
    | nil => simp
    | cons v ws =>
      have hblank : ' '.utf8Size = 1 := rfl
      simp only [joinWords_cons_cons, List.flatten_cons, List.length_cons, String.utf8Len_append,
        String.utf8Len_cons, hblank] at ih ⊢
      omega

section Words

variable {arguments word first : List Char} {ws rest : List (List Char)}

theorem utf8Len_words_le (h : splitWords arguments = .ok ws) :
    utf8Len ws.flatten + ws.length ≤ utf8Len arguments + 1 :=
  utf8Len_wordsFrom_le WordState.sound_default (words_of_splitWords h)

theorem Fits.of_word (h : splitWords arguments = .ok ws) (hw : word ∈ ws) :
    Fits word arguments where
  length := length_le_of_splitWords h hw
  size := by
    have hall := utf8Len_words_le h
    have hone := String.utf8Len_le_of_sublist (List.sublist_flatten_of_mem hw)
    have hpos := List.length_pos_of_mem hw
    omega

/-- The default of an environment variable is put together from words. -/
theorem Fits.of_default (h : splitWords arguments = .ok (first :: rest)) :
    Fits (joinWords rest) arguments where
  length := length_joinWords_le_of_splitWords h
  size := by
    have hall := utf8Len_words_le h
    have hrest := utf8Len_joinWords_le rest
    rw [List.flatten_cons, List.length_cons, String.utf8Len_append] at hall
    omega

end Words

/-! ## Nothing goes wrong -/

section Checked

variable {α β : Type} (x : Except Malformed α)

theorem checked_bind (f : α → Except Malformed β) :
    checked (x >>= f) = checked x >>= fun a => checked (f a) := by
  cases x <;> rfl

theorem checked_map (f : α → β) : checked (f <$> x) = f <$> checked x := by
  cases x <;> rfl

theorem mapM_checked {f : α → Except Halt β} {g : α → Except Malformed β} {xs : List α}
    (h : ∀ x ∈ xs, f x = checked (g x)) : xs.mapM f = checked (xs.mapM g) := by
  induction xs with
  | nil => rfl
  | cons x xs ih =>
    obtain ⟨hx, hxs⟩ := List.forall_mem_cons.mp h
    rw [List.mapM_cons, List.mapM_cons, hx, ih hxs, checked_bind]
    congr 1
    funext y
    rw [checked_bind]
    rfl

end Checked

/-- The reader gives what is read of every text that fits into another one. -/
def Serves (inner : Inner) (body : List Char) : Prop :=
  ∀ cs, Fits cs body → inner cs = checked (readChars cs)

/-- What fits into the body is shorter than the `$(...)` around it. -/
theorem Serves.within {inner : Inner} {body : List Char} (h : Serves inner body) :
    Serves (within body inner) body := by
  intro cs hfits
  have hsize := hfits.size
  have hshorter : utf8Len cs < utf8Len ('$' :: '(' :: (body ++ [')'])) := by
    have hclosing := (')' : Char).utf8Size_pos
    simp only [String.utf8Len_cons, String.utf8Len_append, String.utf8Len_nil]
    omega
  rw [Substitution.within, if_pos hshorter]
  exact h cs hfits

/-- The selector with one more case. -/
def withCase (selector : Selector Substitution Substitution) (case : List Char × Substitution) :
    Selector Substitution Substitution :=
  if case.1 = wildcard.toList then selector.otherwise case.2
  else selector.case (String.ofList (unquote case.1)) case.2

section Serves

variable {inner : Inner} {body arguments word : List Char} {ws : List (List Char)}

theorem Serves.mono (h : Serves inner body) (hfits : Fits arguments body) :
    Serves inner arguments :=
  fun cs hcs => h cs (hcs.trans hfits)

theorem Serves.reads_unquoted (h : Serves inner arguments) :
    unquotedSliced inner arguments = checked (readChars (unquote arguments)) := by
  rw [unquotedSliced, unquoteSliced_eq]
  exact h _ (.of_sublist (unquote_sublist arguments))

theorem Serves.reads_word (h : Serves inner word) :
    wordSliced inner word = checked (readChars (unquote word)) := by
  have hword := h _ (.of_sublist (unquote_sublist word))
  rw [wordSliced, unquoteSliced_eq]
  change (if (unquote word).isEmpty then pure [text ""] else inner (unquote word)) = _
  split
  · next hempty =>
    rw [List.isEmpty_iff.mp hempty]
    rfl
  · exact hword

theorem Serves.reads_operand (h : Serves inner word) :
    operandSliced inner word = checked (operandOf word) := by
  rw [operandSliced, h.reads_word, operandOf, checked_map]

theorem Serves.reads_variable (h : Serves inner arguments) (hws : splitWords arguments = .ok ws) :
    variableSliced inner ws = checked (variableOf ws) := by
  obtain _ | ⟨name, rest⟩ := ws
  · rfl
  · have hdefault := (h.mono (.of_default hws)).reads_word
    cases rest with
    | nil => simp only [variableSliced, unquoteSliced_eq]; rfl
    | cons next rest =>
      simp only [variableSliced, unquoteSliced_eq, hdefault, variableOf, checked_bind]
      cases readChars (unquote (joinWords (next :: rest))) <;> rfl

theorem Serves.adds_case (h : Serves inner word)
    (selector : Selector Substitution Substitution) :
    addCase inner selector word = withCase selector <$> checked (caseOf word) := by
  cases hcut : cutCase 0 word with
  | none => rw [addCase, cutCaseSliced_eq, caseOf, hcut]; rfl
  | some parts =>
    obtain ⟨key, value⟩ := parts
    have hvalue := (h.mono (.of_sublist (value_sublist hcut))).reads_operand
    have hcase : caseOf word = operandOf value >>= fun value => .ok (key, value) := by
      rw [caseOf, hcut]
    rw [addCase, cutCaseSliced_eq, hcut, hcase]
    change (operandSliced inner value >>= fun value => _) = _
    rw [hvalue]
    cases operandOf value with
    | error why => rfl
    | ok value =>
      change (if key = wildcard.toList then _ else unquoteSliced key >>= fun key => _) =
        Except.ok (withCase selector (key, value))
      rw [unquoteSliced_eq, withCase]
      split <;> rfl

theorem Serves.adds_cases (h : ∀ word ∈ ws, Serves inner word)
    (selector : Selector Substitution Substitution) :
    ws.foldlM (addCase inner) selector =
      (fun cases => cases.foldl withCase selector) <$> checked (ws.mapM caseOf) := by
  induction ws generalizing selector with
  | nil => rfl
  | cons word ws ih =>
    obtain ⟨hword, hws⟩ := List.forall_mem_cons.mp h
    rw [List.foldlM_cons, hword.adds_case, List.mapM_cons]
    cases caseOf word with
    | error why => rfl
    | ok case =>
      have hrest := ih hws (withCase selector case)
      change ws.foldlM (addCase inner) (withCase selector case) = _
      rw [hrest]
      cases ws.mapM caseOf <;> rfl

theorem Serves.reads_selection (h : Serves inner arguments) (hws : splitWords arguments = .ok ws) :
    selectionSliced inner ws = checked (selectionOf ws) := by
  have hwords : ∀ word ∈ ws, Serves inner word := fun word hw => h.mono (.of_word hws hw)
  obtain _ | ⟨first, _ | ⟨case, rest⟩⟩ := ws
  · rfl
  · rfl
  · obtain ⟨hfirst, hrest⟩ := List.forall_mem_cons.mp hwords
    have hcases (condition : Substitution) := adds_cases hrest { condition }
    simp only [selectionSliced, selectionOf, hfirst.reads_operand, hcases]
    cases operandOf first with
    | error why => rfl
    | ok condition =>
      cases (case :: rest).mapM caseOf <;> rfl

theorem needsArgument_checked (kind : String) (x : Except Malformed Substitution) :
    needsArgument kind arguments (checked x) =
      checked (if arguments.isEmpty then .error (.argumentMissing kind) else x) := by
  rw [needsArgument]
  split <;> rfl

theorem Serves.reads_split {α : Type} {f : List (List Char) → Except Halt α}
    {g : List (List Char) → Except Malformed α}
    (h : ∀ ws, splitWords arguments = .ok ws → f ws = checked (g ws)) :
    splitSliced arguments >>= f = checked (splitWords arguments >>= g) := by
  rw [splitSliced_eq]
  cases hws : splitWords arguments with
  | error why => rfl
  | ok ws => exact h ws hws

theorem Serves.reads_kind (h : Serves inner arguments) (kind : String) :
    kindSliced inner kind arguments = checked (readKind kind arguments nestedChars) := by
  have henv : splitSliced arguments >>= variableSliced inner =
      checked (readEnv arguments nestedChars) := by
    rw [readEnv_chars]
    exact reads_split fun ws hws => h.reads_variable hws
  have hoperands : splitSliced arguments >>= List.mapM (operandSliced inner) =
      checked (readOperands arguments nestedChars) := by
    rw [readOperands_chars]
    exact reads_split fun ws hws =>
      mapM_checked fun word hw => (h.mono (.of_word hws hw)).reads_operand
  have hselect : splitSliced arguments >>= selectionSliced inner =
      checked (readSelect arguments nestedChars) := by
    rw [readSelect_chars]
    exact reads_split fun ws hws => h.reads_selection hws
  unfold kindSliced readKind
  simp only [henv, hoperands, hselect, h.reads_unquoted, ← checked_map, needsArgument_checked]
  split
  case h_8 => simp_all; rfl
  all_goals rfl

theorem Serves.reads_body (h : Serves inner body) :
    bodySliced inner body = checked (readBody body nestedChars) := by
  rw [bodySliced, readBody_chars]
  exact (h.within.mono (.of_sublist (arguments_sublist body))).reads_kind _

end Serves

/-- Only the empty text has no pieces, and it is read as one empty literal. -/
theorem orText_eq (cs : List Char) :
    (do
      let es ← (pieces cs).mapM (readPiece cs)
      return if es.isEmpty then [.text (String.ofList cs)] else es) = readChars cs := by
  by_cases hne : cs = []
  · subst hne
    rfl
  · rw [← readChars_eq hne]
    cases hes : readChars cs with
    | error why => rfl
    | ok es =>
      have hread := (readChars_ok_iff hne).mp hes
      have hnonempty : es ≠ [] := by
        rintro rfl
        exact pieces_ne_nil hne (List.forall₂_nil_right_iff.mp hread)
      simp [hnonempty]

theorem readSlicedWithin_eq {limit : Nat} {cs : List Char} (h : cs.length < limit) :
    readSlicedWithin limit cs = checked (readChars cs) := by
  induction limit generalizing cs with
  | zero => exact absurd h (Nat.not_lt_zero _)
  | succ limit ih =>
    have hpieces : (pieces cs).mapM (pieceBy (bodySliced (readSlicedWithin limit)) cs) =
        checked ((pieces cs).mapM (readPiece cs)) := by
      refine mapM_checked fun piece hp => ?_
      cases piece with
      | literal ds => rfl
      | unclosed => rfl
      | body body =>
        have hlt := length_body_lt hp
        have hserves : Serves (readSlicedWithin limit) body := fun ds hfits =>
          ih (by have hle := hfits.length; omega)
        exact hserves.reads_body
    rw [readSlicedWithin, scanFrom_eq, hpieces, ← orText_eq cs, checked_bind]
    rfl

theorem readSliced_eq (text : String) : readSliced text = checked (read text) :=
  readSlicedWithin_eq (by rw [String.length_toList]; exact Nat.lt_succ_self _)

/-- Every text is read to its end, as a list of expressions or as malformed, and as it is read
without places. No cut fails on the way, every text that is read inside of a `$(...)` is shorter
than it, and there are not more texts inside of each other than the text has characters. -/
theorem reads_safely (text : String) :
    ((∃ es, readSliced text = .ok es) ∨ ∃ why, readSliced text = .error (.malformed why)) ∧
      readSliced text = checked (read text) := by
  refine ⟨?_, readSliced_eq text⟩
  rw [readSliced_eq]
  cases read text with
  | ok es => exact .inl ⟨es, rfl⟩
  | error why => exact .inr ⟨why, rfl⟩

end LaunchPlan.Substitution
