import LaunchPlan.Proofs.WordSplitting
import LaunchPlan.Resolve

/-!
# Quoted words of a command

The text of a command is read without its first and last character if both are the same quote, and
the quotes of two different words are so taken for a pair. What is left then has the blanks between
the words inside of quotes, so a command of several quoted words never runs with these words.
-/

namespace LaunchPlan

open Substitution (consWord quoted joinWords joinWords_singleton joinedLength)

namespace CommandLine

section Stripped

/-- What is between the first and the last quote of words in single quotes. -/
def stripped (ws : List (List Char)) : List Char :=
  ['\'', ' ', '\''].intercalate ws

theorem stripped_cons_cons (w v : List Char) (ws : List (List Char)) :
    stripped (w :: v :: ws) = w ++ '\'' :: ' ' :: '\'' :: stripped (v :: ws) := by
  simp [stripped, List.intercalate]

theorem stripped_singleton (w : List Char) : stripped [w] = w := by
  simp [stripped]

theorem joinWords_quoted {ws : List (List Char)} (hne : ws ≠ []) :
    joinWords (ws.map quoted) = quoted (stripped ws) := by
  induction ws with
  | nil => exact absurd rfl hne
  | cons w ws ih =>
    cases ws with
    | nil => simp [stripped_singleton]
    | cons v ws =>
      rw [List.map_cons, List.map_cons, Substitution.joinWords_cons_cons, ← List.map_cons,
        ih (List.cons_ne_nil v ws), stripped_cons_cons]
      simp [quoted]

theorem forall_mem_stripped {Q : Char → Prop} {ws : List (List Char)} (hquote : Q '\'')
    (hblank : Q ' ') (h : ∀ w ∈ ws, ∀ c ∈ w, Q c) : ∀ c ∈ stripped ws, Q c := by
  induction ws with
  | nil => simp [stripped]
  | cons w ws ih =>
    obtain ⟨hw, hws⟩ := List.forall_mem_cons.1 h
    cases ws with
    | nil => rwa [stripped_singleton]
    | cons v ws =>
      rw [stripped_cons_cons, List.forall_mem_append]
      simpa [hquote, hblank] using ⟨hw, ih hws⟩

/-- The words would use up all that is between the first and the last quote. -/
theorem joinedLength_stripped {ws : List (List Char)} (hne : ws ≠ []) (h : ∀ w ∈ ws, '\'' ∉ w) :
    joinedLength ws + (stripped ws).count '\'' = (stripped ws).length + 1 := by
  induction ws with
  | nil => exact absurd rfl hne
  | cons w ws ih =>
    obtain ⟨hw, hws⟩ := List.forall_mem_cons.1 h
    have hcount : w.count '\'' = 0 := List.count_eq_zero.2 hw
    cases ws with
    | nil =>
      rw [stripped_singleton, hcount]
      simp [joinedLength]
    | cons v ws =>
      have hrest := ih (List.cons_ne_nil v ws) hws
      have htail : ('\'' :: ' ' :: '\'' :: stripped (v :: ws)).count '\'' =
          (stripped (v :: ws)).count '\'' + 2 := by simp
      rw [stripped_cons_cons, List.count_append, hcount, htail, joinedLength, List.length_append]
      simp only [List.length_cons]
      omega

/-- A quote, a blank and a quote go on with an open word. -/
theorem wordsFrom_seam (rest : List Char) :
    wordsFrom .bare ('\'' :: ' ' :: '\'' :: rest) =
      (wordsFrom .bare rest).map (consWord ' ') := by
  have hopen : step .bare '\'' = ⟨.single, [], false⟩ := rfl
  have hclose : wordsFrom .single (' ' :: '\'' :: rest) =
      (wordsFrom .bare rest).map ([' '].foldr consWord) :=
    @wordsFrom_single [' '] (by decide) rest
  rw [wordsFrom_cons hopen, hclose, Option.map_map]
  rfl

/-- Words without blanks become a single one. -/
theorem wordsFrom_bare_stripped {ws : List (List Char)} (hne : ws ≠ [])
    (h : ∀ w ∈ ws, ∀ c ∈ w, isOrdinary c = true ∧ isSeparator c = false) :
    wordsFrom .bare (stripped ws) = some [joinWords ws] := by
  induction ws with
  | nil => exact absurd rfl hne
  | cons w ws ih =>
    obtain ⟨hw, hws⟩ := List.forall_mem_cons.1 h
    have hopen : ∀ v, w.foldr consWord [v] = [w ++ v] := fun v =>
      Substitution.foldr_consWord w v []
    cases ws with
    | nil =>
      have hend := wordsFrom_bare hw []
      rw [List.append_nil] at hend
      rw [stripped_singleton, hend, joinWords_singleton]
      exact congrArg some ((hopen []).trans (by rw [List.append_nil]))
    | cons v ws =>
      rw [stripped_cons_cons, wordsFrom_bare hw, wordsFrom_seam,
        ih (List.cons_ne_nil v ws) hws, Substitution.joinWords_cons_cons]
      exact congrArg some (hopen _)

theorem wordsFrom_between_stripped {ws : List (List Char)} (hne : ws ≠ [])
    (hword : ∀ w ∈ ws, w ≠ [])
    (h : ∀ w ∈ ws, ∀ c ∈ w, isOrdinary c = true ∧ isSeparator c = false)
    (hcomment : (stripped ws).head? ≠ some '#') :
    wordsFrom .between (stripped ws) = some [joinWords ws] := by
  rw [← wordsFrom_bare_stripped hne h]
  obtain ⟨w, ws, rfl⟩ := List.exists_cons_of_ne_nil hne
  obtain ⟨c, w, rfl⟩ := List.exists_cons_of_ne_nil (hword w (List.mem_cons_self ..))
  obtain ⟨hc, hsep⟩ := h _ (List.mem_cons_self ..) c (List.mem_cons_self ..)
  have hline : ∃ rest, stripped ((c :: w) :: ws) = c :: rest := by
    cases ws with
    | nil => exact ⟨w, stripped_singleton _⟩
    | cons v ws => exact ⟨_, stripped_cons_cons _ v ws⟩
  obtain ⟨rest, hrest⟩ := hline
  rw [hrest] at hcomment ⊢
  exact wordsFrom_between hc hsep (fun heq => hcomment (congrArg some heq)) rest

/-- A line whose words use it up begins with a character of a word. -/
theorem head_of_used_up {c : Char} {cs : List Char} {ws : List (List Char)}
    (hcs : ∀ d ∈ c :: cs, d ≠ '"' ∧ d ≠ '\\') (hc : c ≠ '\'')
    (hused : joinedLength ws + (c :: cs).count '\'' = (c :: cs).length + 1)
    (h : wordsFrom .between (c :: cs) = some ws) : isSeparator c = false ∧ c ≠ '#' := by
  have hrest := (List.forall_mem_cons.1 hcs).2
  rw [List.count_cons_of_ne hc, List.length_cons] at hused
  -- A character that is left out is missing in the words.
  have hskip : ∀ next : Place, next.Simple → step .between c ≠ ⟨next, [], false⟩ := by
    intro next hnext hstep
    rw [wordsFrom_cons hstep] at h
    obtain ⟨vs, hvs, rfl⟩ := Option.map_eq_some_iff.1 h
    have hle := joinedLength_wordsFrom_le hnext hrest hvs
    rw [List.foldr_nil] at hused
    omega
  constructor
  · rw [← Bool.not_eq_true]
    exact fun hsep => hskip .between .between (step_between_separator hsep)
  · rintro rfl
    exact hskip .comment .comment rfl

/-- A word before a quote, a blank and a quote is cut, or goes on behind them. -/
theorem ne_cons_of_seam {w rest : List Char} (hw : ∀ c ∈ w, isOrdinary c = true)
    (hrest : ∀ c ∈ rest, c ≠ '"' ∧ c ≠ '\\') {ws : List (List Char)}
    (h : wordsFrom .bare (w ++ '\'' :: ' ' :: '\'' :: rest) = some ws) (vs : List (List Char)) :
    ws ≠ w :: vs := by
  induction w generalizing ws vs with
  | nil =>
    rw [List.nil_append, wordsFrom_seam] at h
    obtain ⟨us, -, rfl⟩ := Option.map_eq_some_iff.1 h
    cases us <;> simp [consWord]
  | cons c w ih =>
    obtain ⟨hc, hw⟩ := List.forall_mem_cons.1 hw
    rw [List.cons_append] at h
    cases hsep : isSeparator c with
    | true =>
      rw [wordsFrom_cons_ends (step_bare_separator hsep)] at h
      obtain ⟨us, -, rfl⟩ := Option.map_eq_some_iff.1 h
      simp
    | false =>
      rw [wordsFrom_cons (step_bare hc hsep)] at h
      obtain ⟨us, hus, rfl⟩ := Option.map_eq_some_iff.1 h
      have hplain : ∀ d ∈ w ++ '\'' :: ' ' :: '\'' :: rest, d ≠ '"' ∧ d ≠ '\\' := by
        rw [List.forall_mem_append]
        exact ⟨fun d hd => (isOrdinary_iff.1 (hw d hd)).2, by simpa using hrest⟩
      obtain ⟨u, us, rfl⟩ := List.exists_cons_of_ne_nil (wordsFrom_ne_nil .bare hplain hus)
      have hu : u ≠ w := fun hu => ih hw hus us (by rw [hu])
      simp [consWord, hu]

/-- Between the first and the last quote there are other words than in quotes. -/
theorem wordsFrom_stripped_ne {ws : List (List Char)} (hlen : 2 ≤ ws.length)
    (hne : ∀ w ∈ ws, w ≠ []) (h : ∀ w ∈ ws, ∀ c ∈ w, isOrdinary c = true) :
    wordsFrom .between (stripped ws) ≠ some ws := by
  intro hwords
  obtain _ | ⟨w, _ | ⟨v, ws⟩⟩ := ws
  · simp at hlen
  · simp at hlen
  have hplain : ∀ c ∈ stripped (w :: v :: ws), c ≠ '"' ∧ c ≠ '\\' :=
    forall_mem_stripped (by decide) (by decide) fun u hu c hc => (isOrdinary_iff.1 (h u hu c hc)).2
  have hused := joinedLength_stripped (List.cons_ne_nil w (v :: ws)) fun u hu =>
    not_quote_of_ordinary (h u hu)
  obtain ⟨hw, -⟩ := List.forall_mem_cons.1 h
  obtain ⟨c, w, rfl⟩ := List.exists_cons_of_ne_nil (hne w (List.mem_cons_self ..))
  have hc : isOrdinary c = true := hw c (List.mem_cons_self ..)
  rw [stripped_cons_cons] at hwords hplain hused
  obtain ⟨hsep, hcomment⟩ := head_of_used_up hplain (isOrdinary_iff.1 hc).1 hused hwords
  rw [List.cons_append, wordsFrom_between hc hsep hcomment, ← List.cons_append] at hwords
  refine ne_cons_of_seam hw (fun d hd => hplain d ?_) hwords _ rfl
  simp [hd]

end Stripped

end CommandLine

namespace Substitution

/-- No quote, parenthesis, backslash or dollar sign. -/
def isUnmarked (c : Char) : Bool :=
  !isDelimiter c && c ≠ '\\' && c ≠ '$'

/-- A word of such characters. Blanks may stand in it. -/
def Unmarked (w : String) : Prop :=
  w ≠ "" ∧ ∀ c ∈ w.toList, isUnmarked c = true

instance : DecidablePred Unmarked :=
  fun w => decidable_of_iff (w ≠ "" ∧ w.toList.all isUnmarked = true) (by simp [Unmarked])

/-- The words in single quotes, with blanks between them. -/
def quotedLine (ws : List String) : String :=
  " ".intercalate (ws.map fun w => "'" ++ w ++ "'")

theorem toList_quotedLine (ws : List String) :
    (quotedLine ws).toList = joinWords ((ws.map String.toList).map quoted) := by
  rw [quotedLine, String.toList_intercalate, joinWords, List.map_map, List.map_map]
  have hquoted : String.toList ∘ (fun w => "'" ++ w ++ "'") = quoted ∘ String.toList := by
    funext w
    simp [quoted]
  rw [hquoted]
  rfl

/-- The same line without its first and its last quote. -/
def strippedLine (ws : List String) : String :=
  "' '".intercalate ws

theorem toList_strippedLine (ws : List String) :
    (strippedLine ws).toList = CommandLine.stripped (ws.map String.toList) := by
  rw [strippedLine, String.toList_intercalate]
  rfl

theorem quotedLine_eq {ws : List String} (hne : ws ≠ []) :
    quotedLine ws = "'" ++ strippedLine ws ++ "'" := by
  have hmap : ws.map String.toList ≠ [] := by simpa using hne
  apply String.toList_inj.1
  rw [toList_quotedLine, CommandLine.joinWords_quoted hmap, ← toList_strippedLine]
  simp [quoted]

theorem Unmarked.chars {w : String} (h : Unmarked w) : ∀ c ∈ w.toList,
    CommandLine.isOrdinary c = true ∧ c ≠ '(' ∧ c ≠ ')' ∧ c ≠ '$' := by
  intro c hc
  have hunmarked := h.2 c hc
  simp only [isUnmarked, Bool.and_eq_true, Bool.not_eq_true', decide_eq_true_eq, and_assoc]
    at hunmarked
  obtain ⟨hdelimiter, hback, hdollar⟩ := hunmarked
  simp only [isDelimiter, Bool.or_eq_false_iff, decide_eq_false_iff_not] at hdelimiter
  obtain ⟨⟨⟨hsingle, hdouble⟩, hopen⟩, hclose⟩ := hdelimiter
  exact ⟨CommandLine.isOrdinary_iff.2 ⟨hsingle, hdouble, hback⟩, hopen, hclose, hdollar⟩

theorem Unmarked.ordinary {w : String} (h : Unmarked w) :
    ∀ c ∈ w.toList, CommandLine.isOrdinary c = true :=
  fun c hc => (h.chars c hc).1

theorem Unmarked.toList_ne_nil {w : String} (h : Unmarked w) : w.toList ≠ [] :=
  fun hnil => h.1 (String.toList_eq_nil_iff.1 hnil)

/-- A command of quoted words is read without the first and the last quote. -/
theorem readChars_command {ws : List (List Char)} (hne : ws ≠ [])
    (h : ∀ w ∈ ws, ∀ c ∈ w, CommandLine.isOrdinary c = true ∧ c ≠ '(' ∧ c ≠ ')' ∧ c ≠ '$') :
    readChars (call "command" (ws.map quoted)) =
      .ok [.command [.text (String.ofList (CommandLine.stripped ws))]] := by
  have hwhole : ∀ w ∈ ws.map quoted, WholeWord w :=
    List.forall_mem_map.2 fun w hw =>
      wholeWord_quoted (CommandLine.not_quote_of_ordinary fun c hc => (h w hw c hc).1)
  have hline : joinWords (ws.map quoted) = quoted (CommandLine.stripped ws) :=
    CommandLine.joinWords_quoted hne
  have hstripped : ∀ c ∈ CommandLine.stripped ws, c ≠ '(' ∧ c ≠ ')' ∧ c ≠ '$' :=
    CommandLine.forall_mem_stripped (by decide) (by decide) fun w hw c hc => (h w hw c hc).2
  have hdepth : depthAfter 0 (joinWords (ws.map quoted)) = some 0 := by
    rw [hline, depthAfter_quoted]
    exact depthAfter_of_ne (fun c hc => ⟨(hstripped c hc).1, (hstripped c hc).2.1⟩) 0
  have hopens : opensNested (CommandLine.stripped ws) = false :=
    opensNested_eq_false fun c hc => (hstripped c hc).2.2
  have hempty : (quoted (CommandLine.stripped ws)).isEmpty = false := rfl
  have hkind : readKind "command" (joinWords (ws.map quoted)) nestedChars =
      .ok (.command [.text (String.ofList (CommandLine.stripped ws))]) := by
    simp only [readKind, hline, hempty, unquote_quoted, readChars_of_opensNested hopens]
    rfl
  rw [readChars_call (by decide) (by simpa using hne) hwhole hdepth, hkind]
  rfl

variable {ws : List String}

theorem read_command_quotedLine (hne : ws ≠ []) (hws : ∀ w ∈ ws, Unmarked w) :
    read ("$(command " ++ quotedLine ws ++ ")") = .ok [.command [.text (strippedLine ws)]] := by
  have hcall : ("$(command " ++ quotedLine ws ++ ")").toList =
      call "command" ((ws.map String.toList).map quoted) := by
    simp [toList_quotedLine, call, callBody]
  have hread := readChars_command (by simpa using hne)
    (List.forall_mem_map.2 fun w hw => (hws w hw).chars)
  rw [read, hcall, hread, ← toList_strippedLine, String.ofList_toList]

theorem words_quotedLine (hws : ∀ w ∈ ws, Unmarked w) :
    CommandLine.words (quotedLine ws) = .ok ws := by
  rw [CommandLine.words_eq_ok_iff, toList_quotedLine]
  exact CommandLine.wordsFrom_joinWords_quoted (List.forall_mem_map.2 fun w hw =>
    CommandLine.not_quote_of_ordinary (hws w hw).ordinary)

theorem words_strippedLine_ne (hlen : 2 ≤ ws.length) (hws : ∀ w ∈ ws, Unmarked w) :
    CommandLine.words (strippedLine ws) ≠ .ok ws := by
  rw [Ne, CommandLine.words_eq_ok_iff, toList_strippedLine]
  refine CommandLine.wordsFrom_stripped_ne (by simpa using hlen) ?_ ?_
  · exact List.forall_mem_map.2 fun w hw => (hws w hw).toList_ne_nil
  · exact List.forall_mem_map.2 fun w hw => (hws w hw).ordinary

theorem words_strippedLine (hne : ws ≠ []) (hws : ∀ w ∈ ws, Unmarked w)
    (hsep : ∀ w ∈ ws, ∀ c ∈ w.toList, CommandLine.isSeparator c = false)
    (hcomment : (strippedLine ws).toList.head? ≠ some '#') :
    CommandLine.words (strippedLine ws) = .ok [" ".intercalate ws] := by
  have hplain : ∀ w ∈ ws.map String.toList, ∀ c ∈ w,
      CommandLine.isOrdinary c = true ∧ CommandLine.isSeparator c = false :=
    List.forall_mem_map.2 fun w hw c hc => ⟨(hws w hw).ordinary c hc, hsep w hw c hc⟩
  have hword : ∀ w ∈ ws.map String.toList, w ≠ [] :=
    List.forall_mem_map.2 fun w hw => (hws w hw).toList_ne_nil
  rw [toList_strippedLine] at hcomment
  rw [CommandLine.words_eq_ok_iff, List.map_singleton, String.toList_intercalate,
    toList_strippedLine]
  exact CommandLine.wordsFrom_between_stripped (by simpa using hne) hword hplain hcomment

theorem plain_strippedLine (hws : ∀ w ∈ ws, Unmarked w) :
    CommandLine.Plain (strippedLine ws).toList := by
  rw [toList_strippedLine]
  exact CommandLine.forall_mem_stripped (by decide) (by decide) (List.forall_mem_map.2
    fun w hw c hc => (CommandLine.isOrdinary_iff.1 ((hws w hw).ordinary c hc)).2)

theorem plain_quotedLine (hne : ws ≠ []) (hws : ∀ w ∈ ws, Unmarked w) :
    CommandLine.Plain (quotedLine ws).toList := by
  rw [quotedLine_eq hne, String.toList_append, String.toList_append, CommandLine.Plain,
    List.forall_mem_append, List.forall_mem_append]
  exact ⟨⟨by simp, plain_strippedLine hws⟩, by simp⟩

/-- A command of several quoted words is not run with these words, though its text has them. If they
have no blanks and begin no comment, it is run with a single word. That is so for whatever splits
command lines by the rules. -/
theorem quoted_words_joined {split : String → Except SubstitutionError (List String)}
    (hsplit : CommandLine.Splits split) (hlen : 2 ≤ ws.length) (hws : ∀ w ∈ ws, Unmarked w) :
    read ("$(command " ++ quotedLine ws ++ ")") = .ok [.command [.text (strippedLine ws)]] ∧
      (∀ (σ : Type) (host : Host σ) (env : Environment) (arguments : ArgumentTable),
        resolve host env arguments (.command [.text (strippedLine ws)]) =
          host.output env (strippedLine ws)) ∧
      quotedLine ws = "'" ++ strippedLine ws ++ "'" ∧
      split (quotedLine ws) = .ok ws ∧
      split (strippedLine ws) ≠ .ok ws ∧
      ((∀ w ∈ ws, ∀ c ∈ w.toList, CommandLine.isSeparator c = false) →
        (strippedLine ws).toList.head? ≠ some '#' →
        split (strippedLine ws) = .ok [" ".intercalate ws]) := by
  have hne : ws ≠ [] := List.ne_nil_of_length_pos (by omega)
  have hresolve : ∀ (σ : Type) (host : Host σ) (env : Environment) (arguments : ArgumentTable),
      resolve host env arguments (.command [.text (strippedLine ws)]) =
        host.output env (strippedLine ws) := by
    intro σ host env arguments
    simp [resolve, resolveList]
  have hquoted : split (quotedLine ws) = .ok ws :=
    (hsplit.eq_ok_iff (plain_quotedLine hne hws)).2 (words_quotedLine hws)
  have hstripped : ∀ vs, split (strippedLine ws) = .ok vs ↔
      CommandLine.words (strippedLine ws) = .ok vs :=
    fun _ => hsplit.eq_ok_iff (plain_strippedLine hws)
  refine ⟨read_command_quotedLine hne hws, hresolve, quotedLine_eq hne, hquoted, ?_, ?_⟩
  · rw [Ne, hstripped]
    exact words_strippedLine_ne hlen hws
  · intro hsep hcomment
    rw [hstripped]
    exact words_strippedLine hne hws hsep hcomment

theorem spaced_words_joined :
    CommandLine.Splits CommandLine.words ∧ 2 ≤ ["echo", "a b", "#c"].length ∧
      (∀ w ∈ ["echo", "a b", "#c"], Unmarked w) ∧
      read "$(command 'echo' 'a b' '#c')" = .ok [.command [.text "echo' 'a b' '#c"]] ∧
      CommandLine.words "'echo' 'a b' '#c'" = .ok ["echo", "a b", "#c"] ∧
      CommandLine.words "echo' 'a b' '#c" ≠ .ok ["echo", "a b", "#c"] ∧
      CommandLine.words "ls' '-l" = .ok ["ls -l"] := by
  have hlen : 2 ≤ ["echo", "a b", "#c"].length := by decide
  have hws : ∀ w ∈ ["echo", "a b", "#c"], Unmarked w := by decide
  obtain ⟨hread, -, -, hquoted, hstripped, -⟩ :=
    quoted_words_joined CommandLine.words_splits hlen hws
  have hdash : ∀ w ∈ ["ls", "-l"], Unmarked w := by decide
  obtain ⟨-, -, -, -, -, hjoined⟩ := quoted_words_joined CommandLine.words_splits (by decide) hdash
  have hsep : ∀ w ∈ ["ls", "-l"], ∀ c ∈ w.toList, CommandLine.isSeparator c = false := by
    simp [CommandLine.isSeparator]
  exact ⟨CommandLine.words_splits, hlen, hws, hread, hquoted, hstripped, hjoined hsep (by decide)⟩

/-- The quotes of two words are taken for a pair. -/
theorem quoted_words_not_kept :
    read "$(command 'echo' 'a b')" = .ok [.command [.text "echo' 'a b"]] ∧
      CommandLine.words "echo' 'a b" = .ok ["echo a", "b"] ∧
      ¬ ∀ ws : List String, 2 ≤ ws.length → (∀ w ∈ ws, Unmarked w) →
        ∃ parts line, read ("$(command " ++ quotedLine ws ++ ")") = .ok [.command parts] ∧
          (∀ (σ : Type) (host : Host σ) (env : Environment) (arguments : ArgumentTable),
            resolve host env arguments (.command parts) = host.output env line) ∧
          CommandLine.words line = .ok ws := by
  have hread : read "$(command 'echo' 'a b')" = .ok [.command [.text "echo' 'a b"]] := rfl
  have hwords : CommandLine.words "echo' 'a b" = .ok ["echo a", "b"] := by decide
  refine ⟨hread, hwords, fun h => ?_⟩
  obtain ⟨parts, line, hparts, hresolve, hline⟩ := h ["echo", "a b"] (by decide) (by decide)
  have hsame : [Substitution.command [.text "echo' 'a b"]] = [.command parts] :=
    Except.ok.inj (hread.symm.trans hparts)
  cases hsame
  -- A host on which every command prints its line tells lines apart.
  let host : Host Unit := ⟨fun _ line machine => (.ok line, machine), fun _ => {}⟩
  have houtput : host.output default "echo' 'a b" = host.output default line :=
    Eq.trans (by simp [resolve, resolveList]) (hresolve Unit host default default)
  have hrun := congrArg (fun run : Resolving Unit String => (run.run ⟨(), none⟩).1) houtput
  obtain rfl : "echo' 'a b" = line := Except.ok.inj hrun
  rw [hwords] at hline
  exact absurd hline (by decide)

end Substitution

end LaunchPlan
