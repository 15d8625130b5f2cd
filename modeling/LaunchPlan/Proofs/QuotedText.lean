import LaunchPlan.Proofs.Reading
import LaunchPlan.Proofs.ReadingBack
import LaunchPlan.Proofs.WordPlaces

/-!
# Text in single quotes

To what splits words, and to what reads one, quotes keep the text between them. What looks for the
end of a call counts the parentheses inside of quotes too. So a quoted argument is its text where
the parentheses of that text match, and elsewhere the call is not read.
-/

namespace LaunchPlan.Substitution

/-- The text in single quotes. -/
def quoted (t : List Char) : List Char :=
  '\'' :: (t ++ ['\''])

section Words

variable {t : List Char}

/-- A quote is kept up to its end. -/
theorem wordsFrom_quote (ht : '\'' ∉ t) (d : Nat) (rest : List Char) :
    wordsFrom { quote := some '\'', depth := d, inWord := true } (t ++ '\'' :: rest) =
      (wordsFrom { depth := d, inWord := true } rest).map ((t ++ ['\'']).foldr consWord) := by
  induction t with
  | nil => rfl
  | cons c t ih =>
    have hc : c ≠ '\'' := (List.ne_of_not_mem_cons ht).symm
    have hstep : WordState.step { quote := some '\'', depth := d, inWord := true } c =
        ({ quote := some '\'', depth := d, inWord := true }, .keep) := by
      simp [WordState.step, hc]
    rw [List.cons_append, wordsFrom, hstep]
    simp only [ih (List.not_mem_of_not_mem_cons ht), Option.map_map]
    rfl

theorem kept_quoted (ht : '\'' ∉ t) (d : Nat) (inWord : Bool) :
    Kept { depth := d, inWord } (quoted t) := by
  intro rest
  have htext : quoted t ++ rest = '\'' :: (t ++ '\'' :: rest) := by simp [quoted]
  have hstep : WordState.step { depth := d, inWord } '\'' =
      ({ quote := some '\'', depth := d, inWord := true }, .keep) := rfl
  rw [htext, wordsFrom, hstep]
  simp only [wordsFrom_quote ht, Option.map_map]
  rfl

theorem trimmed_quoted (t : List Char) : Trimmed (quoted t) where
  head c hc := by
    obtain rfl : '\'' = c := by simpa [quoted] using hc
    decide
  last c hc := by
    obtain rfl : '\'' = c := by simpa [quoted, List.getLast?_cons] using hc
    decide

theorem quoted_ne_nil (t : List Char) : quoted t ≠ [] :=
  List.cons_ne_nil _ _

theorem wholeWord_quoted (ht : '\'' ∉ t) : WholeWord (quoted t) :=
  ⟨kept_quoted ht 0 false, trimmed_quoted t, quoted_ne_nil t⟩

/-- A quoted text at the end of a word is a part of it. -/
theorem Word.append_quoted {cs : List Char} (h : Word cs) (ht : '\'' ∉ t) :
    WholeWord (cs ++ quoted t) where
  kept := h.kept.append (kept_quoted ht 0 true)
  trimmed := by
    refine ⟨fun c hc => h.trimmed.head c ?_, fun c hc => (trimmed_quoted t).last c ?_⟩
    · obtain ⟨d, cs, rfl⟩ := List.exists_cons_of_ne_nil h.nonempty
      exact hc
    · rwa [List.getLast?_append_of_ne_nil _ (quoted_ne_nil t)] at hc
  nonempty := List.append_ne_nil_of_left_ne_nil h.nonempty _

theorem unquote_quoted (t : List Char) : unquote (quoted t) = t := by
  rw [unquote, (trimmed_quoted t).trim_eq, quoted]
  simp

end Words

section Literals

variable {t : List Char}

/-- A text that opens no call is one literal. -/
theorem pieces_of_opensNested (h : opensNested t = false) (hne : t ≠ []) :
    pieces t = [.literal t] := by
  fun_induction opensNested t with
  | case1 cs => cases h
  | case2 c cs hopen ih =>
    have hcut : pieces (c :: cs) = consLiteral c (pieces cs) := by
      rw [pieces, piecesFrom]
      · rfl
      · exact hopen
    rw [hcut]
    cases cs with
    | nil => rfl
    | cons d cs => rw [ih h (List.cons_ne_nil d cs), consLiteral]
  | case3 => exact absurd rfl hne

theorem readChars_of_opensNested (h : opensNested t = false) :
    readChars t = .ok [text (String.ofList t)] := by
  by_cases hne : t = []
  · subst hne
    rfl
  · rw [readChars_eq hne, pieces_of_opensNested h hne]
    rfl

theorem readWord_quoted (h : opensNested t = false) :
    readWord (quoted t) nestedChars = .ok [text (String.ofList t)] := by
  rw [readWord_chars, unquote_quoted, readChars_of_opensNested h]

theorem operandOf_quoted (h : opensNested t = false) :
    operandOf (quoted t) = .ok (text (String.ofList t)) := by
  rw [operandOf, unquote_quoted, readChars_of_opensNested h]
  rfl

theorem operandOf_plain {s : String} (h : Plain s) : operandOf s.toList = .ok (text s) := by
  have hopens := opensNested_eq_false fun c hc => (h.chars c hc).2.2.1
  rw [operandOf, h.word.unquote_eq, readChars_of_opensNested hopens, String.ofList_toList]
  rfl

end Literals

section Calls

variable {kind : String}

theorem call_ne_nil (kind : String) (ws : List (List Char)) : call kind ws ≠ [] :=
  List.cons_ne_nil _ _

theorem depthAfter_of_not_delimiter {cs : List Char} (h : ∀ c ∈ cs, isDelimiter c = false)
    (depth : Nat) : depthAfter depth cs = some depth := by
  refine depthAfter_of_ne (fun c hc => ?_) depth
  have hdelimiter := h c hc
  simp only [isDelimiter, Bool.or_eq_false_iff, decide_eq_false_iff_not] at hdelimiter
  exact ⟨hdelimiter.1.2, hdelimiter.2⟩

theorem depthAfter_quoted (depth : Nat) (t : List Char) :
    depthAfter depth (quoted t) = depthAfter depth t := by
  have hstep : depthAfter depth (quoted t) = depthAfter depth (t ++ ['\'']) := rfl
  have hend : (fun inner => depthAfter inner ['\'']) = some := rfl
  rw [hstep, depthAfter_append, hend, Option.bind_fun_some]

theorem depthAfter_body (hk : kind ∈ kinds) (arguments : List Char) :
    depthAfter 0 (kind.toList ++ ' ' :: arguments) = depthAfter 0 arguments := by
  have hkind := plain_of_mem_kinds kind hk
  rw [depthAfter_append, hkind.word.balanced.depthAfter, Option.bind_some]
  rfl

/-- A body is read by its kind, without the blanks at its end. -/
theorem readBody_kind (hk : kind ∈ kinds) {arguments : List Char}
    (hhead : ∀ c ∈ arguments.head?, Text.isBlank c = false) (hne : arguments ≠ []) :
    readBody (kind.toList ++ ' ' :: arguments) nestedChars =
      readKind kind (Text.trimEnd arguments) nestedChars := by
  have hkind := plain_of_mem_kinds kind hk
  rw [readBody_chars, kindAndArguments_trimEnd hkind.not_blank hkind.word.nonempty hhead hne,
    String.ofList_toList]

/-- A call that ends where it should is read by its kind from its words. -/
theorem readChars_call (hk : kind ∈ kinds) {ws : List (List Char)} (hne : ws ≠ [])
    (hws : ∀ w ∈ ws, WholeWord w) (hdepth : depthAfter 0 (joinWords ws) = some 0) :
    readChars (call kind ws) = ([·]) <$> readKind kind (joinWords ws) nestedChars := by
  obtain ⟨htrim, hjoin⟩ := joinWords_trimmed hne hws
  have hpieces : pieces (call kind ws) = [.body (callBody kind ws)] :=
    piecesFrom_body ((depthAfter_body hk _).trans hdepth) []
  have hbody := readBody_kind hk htrim.head hjoin
  rw [htrim.trimEnd_eq] at hbody
  have hread : readPiece (call kind ws) (.body (callBody kind ws)) =
      readKind kind (joinWords ws) nestedChars := hbody
  rw [readChars_eq (call_ne_nil kind ws), hpieces, List.mapM_cons, List.mapM_nil, hread,
    map_eq_pure_bind]
  rfl

/-- The kinds whose arguments are split into words, and what they make of these. -/
inductive Splits : String → (List (List Char) → Except Malformed Substitution) → Prop
  | env : Splits "env" variableOf
  | pathJoin : Splits "path-join" fun ws => pathJoin <$> ws.mapM operandOf
  | select : Splits "select" selectionOf

variable {make : List (List Char) → Except Malformed Substitution}

theorem Splits.mem_kinds (h : Splits kind make) : kind ∈ kinds := by
  cases h <;> decide

theorem Splits.readKind_eq (h : Splits kind make) {arguments : List Char} (hne : arguments ≠ []) :
    readKind kind arguments nestedChars = splitWords arguments >>= make := by
  have hempty : ¬ arguments.isEmpty = true := by simpa using hne
  cases h with
  | env => simp only [readKind, if_neg hempty, readEnv_chars]
  | pathJoin => simp only [readKind, if_neg hempty, readOperands_chars, map_bind]
  | select => simp only [readKind, if_neg hempty, readSelect_chars]

/-- A call whose kind makes `e` of its words. Quotes stand around `t` in them, and what is before
and after these means nothing to a scanner. -/
structure QuotedCall (t : List Char) (kind : String) (ws : List (List Char))
    (e : Substitution) : Prop where
  makes : ∃ make, Splits kind make ∧ make ws = .ok e
  whole : ∀ w ∈ ws, WholeWord w
  around : ∃ front back, joinWords ws = front ++ (quoted t ++ back) ∧
    (∀ c ∈ front, isDelimiter c = false) ∧ ∀ c ∈ back, isDelimiter c = false

namespace QuotedCall

variable {t : List Char} {ws : List (List Char)} {e : Substitution}

theorem ne_nil (h : QuotedCall t kind ws e) : ws ≠ [] := by
  rintro rfl
  obtain ⟨front, back, hjoin, -⟩ := h.around
  have hlength := congrArg List.length hjoin
  simp [joinWords, quoted] at hlength

/-- The arguments of the call have the open parentheses of the text. -/
theorem depthAfter_arguments (h : QuotedCall t kind ws e) :
    depthAfter 0 (joinWords ws) = depthAfter 0 t := by
  obtain ⟨front, back, hjoin, hfront, hback⟩ := h.around
  have hend : (fun inner => depthAfter inner back) = some :=
    funext fun inner => depthAfter_of_not_delimiter hback inner
  rw [hjoin, depthAfter_append, depthAfter_of_not_delimiter hfront, Option.bind_some,
    depthAfter_append, depthAfter_quoted, hend, Option.bind_fun_some]

/-- Where the parentheses of the text match, the call is read. -/
theorem read_matched (h : QuotedCall t kind ws e) (hdepth : depthAfter 0 t = some 0) :
    readChars (call kind ws) = .ok [e] := by
  obtain ⟨make, hsplits, hmake⟩ := h.makes
  obtain ⟨-, hjoin⟩ := joinWords_trimmed h.ne_nil h.whole
  have hkind : readKind kind (joinWords ws) nestedChars = .ok e := by
    rw [hsplits.readKind_eq hjoin, splitWords_joinWords fun w hw => (h.whole w hw).kept]
    exact hmake
  have hclosed : depthAfter 0 (joinWords ws) = some 0 := h.depthAfter_arguments.trans hdepth
  rw [readChars_call hsplits.mem_kinds h.ne_nil h.whole hclosed, hkind]
  rfl

/-- Where the text opens a parenthesis too many, the call does not end. -/
theorem read_opened (h : QuotedCall t kind ws e) {depth : Nat}
    (hdepth : depthAfter 0 t = some (depth + 1)) :
    readChars (call kind ws) =
      .error (.unmatchedParentheses (String.ofList (call kind ws))) := by
  obtain ⟨make, hsplits, -⟩ := h.makes
  have hpieces : pieces (call kind ws) = [.unclosed] :=
    piecesFrom_unclosed
      ((depthAfter_body hsplits.mem_kinds _).trans (h.depthAfter_arguments.trans hdepth))
  rw [readChars_eq (call_ne_nil kind ws), hpieces, List.mapM_cons]
  rfl

end QuotedCall

/-- A quote that is not closed is the end of splitting. -/
theorem splitWords_open {front inner : List Char} (hfront : ∀ c ∈ front, isDelimiter c = false)
    (hinner : '\'' ∉ inner) :
    splitWords (front ++ '\'' :: inner) =
      .error (.unterminatedQuote (String.ofList (front ++ '\'' :: inner))) := by
  have hnesting : (front ++ '\'' :: inner).foldl Nesting.step {} = ⟨some '\'', 0⟩ := by
    rw [List.foldl_append, Nesting.foldl_of_not_delimiter rfl hfront, List.foldl_cons]
    exact Nesting.foldl_quoted rfl hinner
  have hopen : words (front ++ '\'' :: inner) = none := by
    rw [words, WordState.wordsFrom_eq_none_iff]
    change ((front ++ '\'' :: inner).foldl Nesting.step {}).quote ≠ none
    rw [hnesting]
    exact Option.some_ne_none _
  rw [splitWords, hopen]

/-- A call that ends inside of a quote is not read. -/
theorem readChars_open (h : Splits kind make) {front inner : List Char}
    (hfront : ∀ c ∈ front, isDelimiter c = false) (hinner : '\'' ∉ inner)
    (hhead : ∀ c ∈ (front ++ '\'' :: inner).head?, Text.isBlank c = false)
    (hdepth : depthAfter 0 inner = some 0) (rest : List Char) :
    readChars ('$' :: '(' :: ((kind.toList ++ ' ' :: (front ++ '\'' :: inner)) ++ ')' :: rest)) =
      .error (.unterminatedQuote (String.ofList (front ++ '\'' :: Text.trimEnd inner))) := by
  have hquote : '\'' ∉ Text.trimEnd inner := fun hmem =>
    hinner ((List.rdropWhile_prefix _ inner).subset hmem)
  have hend : Text.trimEnd (front ++ '\'' :: inner) = front ++ '\'' :: Text.trimEnd inner :=
    trimEnd_append_cons (by decide) front inner
  have hbody : readBody (kind.toList ++ ' ' :: (front ++ '\'' :: inner)) nestedChars =
      .error (.unterminatedQuote (String.ofList (front ++ '\'' :: Text.trimEnd inner))) := by
    rw [readBody_kind h.mem_kinds hhead (by simp), hend, h.readKind_eq (by simp),
      splitWords_open hfront hquote]
    rfl
  have hclosed : depthAfter 0 (kind.toList ++ ' ' :: (front ++ '\'' :: inner)) = some 0 := by
    rw [depthAfter_body h.mem_kinds, depthAfter_append, depthAfter_of_not_delimiter hfront,
      Option.bind_some]
    exact hdepth
  rw [readChars_eq (List.cons_ne_nil _ _), pieces, piecesFrom_body hclosed rest, List.mapM_cons,
    readPiece, hbody]
  rfl

/-- Where the text closes a parenthesis too many, the call ends inside of the quotes. -/
theorem QuotedCall.read_closed {t : List Char} {ws : List (List Char)} {e : Substitution}
    (h : QuotedCall t kind ws e) (ht : '\'' ∉ t) (hdepth : depthAfter 0 t = none) :
    ∃ cut, readChars (call kind ws) = .error (.unterminatedQuote cut) := by
  obtain ⟨make, hsplits, -⟩ := h.makes
  obtain ⟨front, back, hjoin, hfront, -⟩ := h.around
  obtain ⟨htrim, -⟩ := joinWords_trimmed h.ne_nil h.whole
  obtain ⟨before, after, rfl, hbefore⟩ := exists_of_depthAfter_eq_none hdepth
  have hcall : call kind ws = '$' :: '(' ::
      ((kind.toList ++ ' ' :: (front ++ '\'' :: before)) ++
        ')' :: (after ++ '\'' :: back ++ [')'])) := by
    simp [call, callBody, hjoin, quoted]
  have hhead : ∀ c ∈ (front ++ '\'' :: before).head?, Text.isBlank c = false := by
    intro c hc
    refine htrim.head c ?_
    rw [hjoin, List.head?_append]
    rwa [List.head?_append] at hc
  have hquote : '\'' ∉ before := fun hmem => ht (List.mem_append_left _ hmem)
  rw [hcall]
  exact ⟨_, readChars_open hsplits hfront hquote hhead hbefore _⟩

section Arguments

variable {t : List Char}

theorem Plain.not_delimiter {s : String} (h : Plain s) : ∀ c ∈ s.toList, isDelimiter c = false :=
  fun c hc => (h.chars c hc).1

theorem quotedCall_pathJoin (ht : '\'' ∉ t) (hn : opensNested t = false) {x : String}
    (hx : Plain x) :
    QuotedCall t "path-join" [quoted t, x.toList]
      (.pathJoin [.text (String.ofList t), .text x]) where
  makes := by
    refine ⟨_, .pathJoin, ?_⟩
    rw [List.mapM_cons, List.mapM_cons, List.mapM_nil, operandOf_quoted hn, operandOf_plain hx]
    rfl
  whole := by simpa using ⟨wholeWord_quoted ht, hx.word.whole⟩
  around := by
    refine ⟨[], ' ' :: x.toList, by simp [joinWords_cons_cons], by simp, ?_⟩
    exact List.forall_mem_cons.2 ⟨by decide, hx.not_delimiter⟩

theorem quotedCall_env (ht : '\'' ∉ t) (hn : opensNested t = false) {name : String}
    (hname : Plain name) :
    QuotedCall t "env" [name.toList, quoted t]
      (.env name (some [.text (String.ofList t)])) where
  makes := by
    have hdefault : readChars (unquote (joinWords [quoted t])) = .ok [text (String.ofList t)] := by
      rw [joinWords_singleton, unquote_quoted, readChars_of_opensNested hn]
    refine ⟨_, .env, (bind_of_ok hdefault).trans ?_⟩
    rw [hname.word.unquote_eq, String.ofList_toList]
  whole := by simpa using ⟨hname.word.whole, wholeWord_quoted ht⟩
  around := by
    refine ⟨name.toList ++ [' '], [], by simp [joinWords_cons_cons], ?_, by simp⟩
    exact List.forall_mem_append.2 ⟨hname.not_delimiter, List.forall_mem_singleton.2 (by decide)⟩

theorem caseOf_quoted (hn : opensNested t = false) {key : String} (hk : Plain key) :
    caseOf (key.toList ++ '=' :: quoted t) = .ok (key.toList, .text (String.ofList t)) := by
  have hcut : cutCase 0 (key.toList ++ '=' :: quoted t) = some (key.toList, quoted t) :=
    cutCase_eq fun c hc => ⟨hk.not_delimiter c hc, (hk.chars c hc).2.2.2⟩
  rw [caseOf, hcut]
  exact bind_of_ok (operandOf_quoted hn)

theorem quotedCall_select (ht : '\'' ∉ t) (hn : opensNested t = false) {condition key : String}
    (hcondition : Plain condition) (hk : Plain key) (hne : key ≠ wildcard) :
    QuotedCall t "select" [condition.toList, key.toList ++ '=' :: quoted t]
      (.select ⟨.text condition, [(key, .text (String.ofList t))], none⟩) where
  makes := by
    have hcases : [key.toList ++ '=' :: quoted t].mapM caseOf =
        .ok [(key.toList, .text (String.ofList t))] := by
      rw [List.mapM_cons, List.mapM_nil, caseOf_quoted hn hk]
      rfl
    have hkeys : ∀ c ∈ [(key, text (String.ofList t))], Plain c.1 ∧ c.1 ≠ wildcard := by
      simpa using ⟨hk, hne⟩
    have hselector := selectorOf_entries (.text condition) hkeys none
    refine ⟨_, .select, (bind_of_ok (operandOf_plain hcondition)).trans ?_⟩
    exact (bind_of_ok hcases).trans (congrArg (Except.ok ∘ Substitution.select) hselector)
  whole := by
    have hkey : Word (key.toList ++ ['=']) :=
      ⟨hk.word.balanced.append (.char (by decide) (by decide) .nil), by simp⟩
    have hcase := hkey.append_quoted ht
    rw [List.append_assoc, List.singleton_append] at hcase
    simpa using ⟨hcondition.word.whole, hcase⟩
  around := by
    refine ⟨condition.toList ++ ' ' :: (key.toList ++ ['=']), [],
      by simp [joinWords_cons_cons], ?_, by simp⟩
    have hkey : ∀ c ∈ key.toList ++ ['='], isDelimiter c = false :=
      List.forall_mem_append.2 ⟨hk.not_delimiter, List.forall_mem_singleton.2 (by decide)⟩
    exact List.forall_mem_append.2
      ⟨hcondition.not_delimiter, List.forall_mem_cons.2 ⟨by decide, hkey⟩⟩

end Arguments

end Calls

/-- The calls in which the text may stand as a quoted argument, with what they are if the quotes
keep all of it. -/
inductive QuotedArgument (t : String) : String → Substitution → Prop
  | pathJoin {x : String} : Plain x →
      QuotedArgument t ("$(path-join '" ++ t ++ "' " ++ x ++ ")") (.pathJoin [.text t, .text x])
  | default {name : String} : Plain name →
      QuotedArgument t ("$(env " ++ name ++ " '" ++ t ++ "')") (.env name (some [.text t]))
  | case {condition key : String} : Plain condition → Plain key → key ≠ wildcard →
      QuotedArgument t ("$(select " ++ condition ++ " " ++ key ++ "='" ++ t ++ "')")
        (.select ⟨.text condition, [(key, .text t)], none⟩)

theorem QuotedArgument.exists_call {t cs : String} {e : Substitution} (h : QuotedArgument t cs e)
    (ht : '\'' ∉ t.toList) (hn : opensNested t.toList = false) :
    ∃ kind ws, cs.toList = call kind ws ∧ QuotedCall t.toList kind ws e := by
  have htext : t = String.ofList t.toList := String.ofList_toList.symm
  cases h with
  | @pathJoin x hx =>
    refine ⟨"path-join", [quoted t.toList, x.toList], ?_, ?_⟩
    · simp [call, callBody, joinWords_cons_cons, quoted]
    · simpa using quotedCall_pathJoin ht hn hx
  | @default name hname =>
    refine ⟨"env", [name.toList, quoted t.toList], ?_, ?_⟩
    · simp [call, callBody, joinWords_cons_cons, quoted]
    · simpa using quotedCall_env ht hn hname
  | @case condition key hcondition hkey hwild =>
    refine ⟨"select", [condition.toList, key.toList ++ '=' :: quoted t.toList], ?_, ?_⟩
    · simp [call, callBody, joinWords_cons_cons, quoted]
    · simpa using quotedCall_select ht hn hcondition hkey hwild

/-- In a list of words a quoted text is its text. So it is in a call where the parentheses of the
text match; where it opens or closes one too many, the call is not read. -/
theorem read_quoted {t : String} (ht : '\'' ∉ t.toList) (hn : opensNested t.toList = false) :
    readWords ("'" ++ t ++ "'") = .ok [[.text t]] ∧
      ∀ cs e, QuotedArgument t cs e →
        (depthAfter 0 t.toList = some 0 → read cs = .ok [e]) ∧
        (∀ depth, depthAfter 0 t.toList = some (depth + 1) →
          read cs = .error (.unmatchedParentheses cs)) ∧
        (depthAfter 0 t.toList = none → ∃ cut, read cs = .error (.unterminatedQuote cut)) := by
  constructor
  · have hchars : ("'" ++ t ++ "'").toList = joinWords [quoted t.toList] := by
      simp [quoted]
    have hsplit : splitWords ("'" ++ t ++ "'").toList = .ok [quoted t.toList] := by
      rw [hchars]
      exact splitWords_joinWords (by simpa using kept_quoted ht 0 false)
    have hword : readWord (quoted t.toList) nestedChars = .ok [.text t] := by
      rw [readWord_quoted hn, String.ofList_toList]
    refine (bind_of_ok hsplit).trans ?_
    rw [List.mapM_cons, List.mapM_nil]
    exact bind_of_ok hword
  · intro cs e h
    obtain ⟨kind, ws, hcall, hquoted⟩ := h.exists_call ht hn
    have hcs : cs = String.ofList (call kind ws) := by rw [← hcall, String.ofList_toList]
    rw [read, hcall]
    refine ⟨hquoted.read_matched, fun depth hdepth => ?_, hquoted.read_closed ht⟩
    rw [hquoted.read_opened hdepth, ← hcs]

theorem spaced_quoted :
    '\'' ∉ "k=\"(a  b)\" $".toList ∧ opensNested "k=\"(a  b)\" $".toList = false ∧
      depthAfter 0 "k=\"(a  b)\" $".toList = some 0 ∧
      readWords "'k=\"(a  b)\" $'" = .ok [[.text "k=\"(a  b)\" $"]] ∧
      read "$(path-join 'k=\"(a  b)\" $' x)" =
        .ok [.pathJoin [.text "k=\"(a  b)\" $", .text "x"]] ∧
      read "$(env N 'k=\"(a  b)\" $')" = .ok [.env "N" (some [.text "k=\"(a  b)\" $"])] ∧
      read "$(select a k='k=\"(a  b)\" $')" =
        .ok [.select ⟨.text "a", [("k", .text "k=\"(a  b)\" $")], none⟩] := by
  have ht : '\'' ∉ "k=\"(a  b)\" $".toList := by decide
  have hn : opensNested "k=\"(a  b)\" $".toList = false := by decide
  have hdepth : depthAfter 0 "k=\"(a  b)\" $".toList = some 0 := by decide
  obtain ⟨hwords, hread⟩ := read_quoted ht hn
  have hx : Plain "x" := by decide
  have hname : Plain "N" := by decide
  have hcondition : Plain "a" := by decide
  have hkey : Plain "k" := by decide
  have hwild : "k" ≠ wildcard := by decide
  exact ⟨ht, hn, hdepth, hwords, (hread _ _ (.pathJoin hx)).1 hdepth,
    (hread _ _ (.default hname)).1 hdepth, (hread _ _ (.case hcondition hkey hwild)).1 hdepth⟩

/-- A quoted parenthesis that closes none ends the call, though it is in quotes. -/
theorem quoted_not_text :
    read "$(path-join 'a)b' x)" = .error (.unterminatedQuote "'a") ∧
      ¬ ∀ t : String, '\'' ∉ t.toList → opensNested t.toList = false →
        ∀ cs e, QuotedArgument t cs e → read cs = .ok [e] := by
  have hread : read "$(path-join 'a)b' x)" = .error (.unterminatedQuote "'a") := rfl
  refine ⟨hread, fun h => ?_⟩
  have hcall : QuotedArgument "a)b" "$(path-join 'a)b' x)" (.pathJoin [.text "a)b", .text "x"]) :=
    .pathJoin (show Plain "x" by decide)
  have hok := h "a)b" (by decide) (by decide) _ _ hcall
  rw [hread] at hok
  cases hok

end LaunchPlan.Substitution
