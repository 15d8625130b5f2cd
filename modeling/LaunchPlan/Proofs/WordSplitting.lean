import LaunchPlan.Proofs.CommandWords

/-!
# Splitting into words

Command lines are split by rules about blanks, comments and quotes. Without double quotes and
backslashes, the rules leave no choice: whatever splits by them finds the words that `words` finds.
-/

namespace LaunchPlan.CommandLine

open Substitution (consWord quoted)

/-- What a line holds of one word, and what it stands for there: characters that quote and separate
nothing, and texts in single quotes. -/
inductive Raw : List Char → List Char → Prop
  | nil : Raw [] []
  | char {c : Char} {raw text : List Char} : isOrdinary c = true → isSeparator c = false →
      Raw raw text → Raw (c :: raw) (c :: text)
  | quote {cs raw text : List Char} : '\'' ∉ cs → Raw raw text → Raw (quoted cs ++ raw) (cs ++ text)

/-- A line is split into these words. -/
def Gives (split : String → Except SubstitutionError (List String)) (cs : List Char)
    (ws : List (List Char)) : Prop :=
  split (String.ofList cs) = .ok (ws.map String.ofList)

/-- The rules for lines without double quotes and backslashes. -/
structure Splits (split : String → Except SubstitutionError (List String)) : Prop where
  /-- An empty line has no words. -/
  empty : Gives split [] []
  /-- What separates words may stand before them. -/
  separator {c : Char} {cs : List Char} {ws : List (List Char)} : isSeparator c = true →
    (Gives split (c :: cs) ws ↔ Gives split cs ws)
  /-- Where a word could begin, `#` begins a comment, up to the end of its line. -/
  comment {note cs : List Char} {ws : List (List Char)} : '\n' ∉ note →
    (Gives split ('#' :: note ++ '\n' :: cs) ws ↔ Gives split cs ws)
  lastComment {note : List Char} : '\n' ∉ note → Gives split ('#' :: note) []
  /-- A word goes up to what separates it from the next one. -/
  word {raw text cs : List Char} {c : Char} {ws : List (List Char)} : Raw raw text → raw ≠ [] →
    raw.head? ≠ some '#' → isSeparator c = true →
    (Gives split (raw ++ c :: cs) ws ↔ ∃ vs, Gives split cs vs ∧ ws = text :: vs)
  lastWord {raw text : List Char} : Raw raw text → raw ≠ [] → raw.head? ≠ some '#' →
    Gives split raw [text]
  /-- A quote that is opened has to be closed. -/
  unclosed {raw text cs : List Char} {ws : List (List Char)} : Raw raw text →
    raw.head? ≠ some '#' → '\'' ∉ cs → ¬ Gives split (raw ++ '\'' :: cs) ws

/-- How a line is taken apart by the rules. -/
inductive Line : List Char → Prop
  | empty : Line []
  | separator {c : Char} {cs : List Char} : isSeparator c = true → Line cs → Line (c :: cs)
  | comment {note cs : List Char} : '\n' ∉ note → Line cs → Line ('#' :: note ++ '\n' :: cs)
  | lastComment {note : List Char} : '\n' ∉ note → Line ('#' :: note)
  | word {raw text cs : List Char} {c : Char} : Raw raw text → raw ≠ [] → raw.head? ≠ some '#' →
      isSeparator c = true → Line cs → Line (raw ++ c :: cs)
  | lastWord {raw text : List Char} : Raw raw text → raw ≠ [] → raw.head? ≠ some '#' → Line raw
  | unclosed {raw text cs : List Char} : Raw raw text → raw.head? ≠ some '#' → '\'' ∉ cs →
      Line (raw ++ '\'' :: cs)

/-- What splits by the rules leaves no choice. -/
theorem Splits.agree {split split' : String → Except SubstitutionError (List String)}
    (h : Splits split) (h' : Splits split') {cs : List Char} (hline : Line cs)
    (ws : List (List Char)) : Gives split cs ws ↔ Gives split' cs ws := by
  have hgiven : ∀ {cs vs} (ws : List (List Char)), Gives split cs vs → Gives split' cs vs →
      (Gives split cs ws ↔ Gives split' cs ws) := by
    intro cs vs ws hvs hvs'
    rw [Gives, Gives, hvs, hvs']
  induction hline generalizing ws with
  | empty => exact hgiven ws h.empty h'.empty
  | separator hsep _ ih =>
    rw [h.separator hsep, h'.separator hsep]
    exact ih ws
  | comment hnote _ ih =>
    rw [h.comment hnote, h'.comment hnote]
    exact ih ws
  | lastComment hnote => exact hgiven ws (h.lastComment hnote) (h'.lastComment hnote)
  | word hraw hne hhash hsep _ ih =>
    simp only [h.word hraw hne hhash hsep, h'.word hraw hne hhash hsep, ih]
  | lastWord hraw hne hhash =>
    exact hgiven ws (h.lastWord hraw hne hhash) (h'.lastWord hraw hne hhash)
  | unclosed hraw hhash hopen =>
    exact iff_of_false (h.unclosed hraw hhash hopen) (h'.unclosed hraw hhash hopen)

/-! ## Lines without double quotes and backslashes -/

def Plain (cs : List Char) : Prop :=
  ∀ c ∈ cs, c ≠ '"' ∧ c ≠ '\\'

theorem Plain.tail {c : Char} {cs : List Char} (h : Plain (c :: cs)) : Plain cs :=
  fun d hd => h d (List.mem_cons_of_mem c hd)

theorem Plain.right {before cs : List Char} (h : Plain (before ++ cs)) : Plain cs :=
  fun c hc => h c (List.mem_append_right _ hc)

/-- A plain line begins with what it holds of one word: up to its end, to a separator, or to a quote
that is not closed. -/
theorem exists_raw (cs : List Char) (hcs : Plain cs) : ∃ raw text, Raw raw text ∧
    (cs = raw ∨ (∃ c rest, isSeparator c = true ∧ cs = raw ++ c :: rest) ∨
      ∃ rest, '\'' ∉ rest ∧ cs = raw ++ '\'' :: rest) := by
  -- A quoted text is passed as a whole, so the induction is on the length.
  induction hn : cs.length using Nat.strongRecOn generalizing cs with
  | ind n ih =>
  cases cs with
  | nil => exact ⟨[], [], .nil, .inl rfl⟩
  | cons c cs =>
    rw [List.length_cons] at hn
    cases hsep : isSeparator c with
    | true => exact ⟨[], [], .nil, .inr (.inl ⟨c, cs, hsep, rfl⟩)⟩
    | false =>
      by_cases hquote : c = '\''
      · subst hquote
        by_cases hclosed : '\'' ∈ cs
        · obtain ⟨inner, more, rfl, hinner⟩ := List.eq_append_cons_of_mem hclosed
          rw [List.length_append, List.length_cons] at hn
          obtain ⟨raw, text, hraw, hrest⟩ := ih more.length (by omega) more hcs.tail.right.tail rfl
          refine ⟨quoted inner ++ raw, inner ++ text, .quote hinner hraw, ?_⟩
          have hline : '\'' :: (inner ++ '\'' :: more) = quoted inner ++ more := by simp [quoted]
          rw [hline]
          simpa only [List.append_assoc, List.append_cancel_left_eq] using hrest
        · exact ⟨[], [], .nil, .inr (.inr ⟨cs, hclosed, rfl⟩)⟩
      · obtain ⟨hdouble, hback⟩ := hcs c List.mem_cons_self
        have hordinary := isOrdinary_iff.2 ⟨hquote, hdouble, hback⟩
        obtain ⟨raw, text, hraw, hrest⟩ := ih cs.length (by omega) cs hcs.tail rfl
        refine ⟨c :: raw, c :: text, .char hordinary hsep hraw, ?_⟩
        simpa only [List.cons_append, List.cons.injEq, true_and] using hrest

theorem line_of_plain (cs : List Char) (hcs : Plain cs) : Line cs := by
  induction hn : cs.length using Nat.strongRecOn generalizing cs with
  | ind n ih =>
  have hshorter : ∀ before rest, cs = before ++ rest → before ≠ [] → Line rest := by
    intro before rest heq hne
    subst heq
    have hpos := List.length_pos_of_ne_nil hne
    rw [List.length_append] at hn
    exact ih rest.length (by omega) rest hcs.right rfl
  cases cs with
  | nil => exact .empty
  | cons c cs =>
    cases hsep : isSeparator c with
    | true => exact .separator hsep (hshorter [c] cs rfl (List.cons_ne_nil c []))
    | false =>
      by_cases hhash : c = '#'
      · subst hhash
        by_cases hnewline : '\n' ∈ cs
        · obtain ⟨note, rest, rfl, hnote⟩ := List.eq_append_cons_of_mem hnewline
          exact .comment hnote
            (hshorter ('#' :: note ++ ['\n']) rest (by simp) (List.cons_ne_nil '#' _))
        · exact .lastComment hnewline
      · have hhead : ∀ {raw more : List Char}, c :: cs = raw ++ more → raw.head? ≠ some '#' := by
          rintro (_ | ⟨d, raw⟩) more heq hd
          · cases hd
          · cases hd
            exact hhash (List.cons.inj heq).1
        obtain ⟨raw, text, hraw, rfl | ⟨d, rest, hd, heq⟩ | ⟨rest, hopen, heq⟩⟩ :=
          exists_raw (c :: cs) hcs
        · exact .lastWord hraw (List.cons_ne_nil c cs) (hhead (List.append_nil _).symm)
        · have hne : raw ≠ [] := by
            rintro rfl
            cases heq
            simp [hd] at hsep
          have hrest := hshorter (raw ++ [d]) rest (by simp [heq]) (by simp)
          rw [heq]
          exact .word hraw hne (hhead heq) hd hrest
        · rw [heq]
          exact .unclosed hraw (hhead heq) hopen

/-! ## The splitter -/

theorem gives_words {cs : List Char} {ws : List (List Char)} :
    Gives words cs ws ↔ wordsFrom .between cs = some ws := by
  rw [Gives, words_eq_ok_iff]
  simp [Function.comp_def]

/-- Inside a word, what is held of it goes on with it. -/
theorem Raw.wordsFrom_bare {raw text : List Char} (h : Raw raw text) (rest : List Char) :
    wordsFrom .bare (raw ++ rest) = (wordsFrom .bare rest).map (text.foldr consWord) := by
  induction h with
  | nil => simp
  | char hordinary hsep _ ih =>
    rw [List.cons_append, wordsFrom_cons (step_bare hordinary hsep), ih, Option.map_map]
    rfl
  | @quote cs raw text hcs _ ih =>
    have hopen : step .bare '\'' = ⟨.single, [], false⟩ := rfl
    have hline : quoted cs ++ raw ++ rest = '\'' :: (cs ++ '\'' :: (raw ++ rest)) := by
      simp [quoted]
    rw [hline, wordsFrom_cons hopen, wordsFrom_single hcs, ih, Option.map_map, Option.map_map]
    simp [Function.comp_def]

/-- A word begins where no comment does. -/
theorem Raw.wordsFrom_between {raw text : List Char} (h : Raw raw text) (hne : raw ≠ [])
    (hhash : raw.head? ≠ some '#') (rest : List Char) :
    wordsFrom .between (raw ++ rest) = (wordsFrom .bare rest).map (text.foldr consWord) := by
  rw [← h.wordsFrom_bare]
  cases h with
  | nil => exact absurd rfl hne
  | char hordinary hsep _ =>
    exact CommandLine.wordsFrom_between hordinary hsep (fun hc => hhash (by rw [hc]; rfl)) _
  | quote hcs _ => rfl

theorem wordsFrom_comment {note : List Char} (h : '\n' ∉ note) (rest : List Char) :
    wordsFrom .comment (note ++ rest) = wordsFrom .comment rest := by
  induction note with
  | nil => rfl
  | cons c note ih =>
    have hc : c ≠ '\n' := (List.ne_of_not_mem_cons h).symm
    have hstep : step .comment c = ⟨.comment, [], false⟩ := by simp [step, hc]
    rw [List.cons_append, wordsFrom_cons hstep, ih (List.not_mem_of_not_mem_cons h)]
    simp

theorem wordsFrom_single_none {cs : List Char} (h : '\'' ∉ cs) : wordsFrom .single cs = none := by
  induction cs with
  | nil => rfl
  | cons c cs ih =>
    have hc : c ≠ '\'' := (List.ne_of_not_mem_cons h).symm
    rw [wordsFrom_cons (step_single hc), ih (List.not_mem_of_not_mem_cons h)]
    rfl

theorem words_splits : Splits words where
  empty := rfl
  separator {c cs ws} hsep := by
    rw [gives_words, gives_words, wordsFrom_cons (step_between_separator hsep)]
    simp
  comment {note cs ws} hnote := by
    have hopen : step .between '#' = ⟨.comment, [], false⟩ := rfl
    have hclose : step .comment '\n' = ⟨.between, [], false⟩ := rfl
    rw [gives_words, gives_words, List.cons_append, wordsFrom_cons hopen, wordsFrom_comment hnote,
      wordsFrom_cons hclose]
    simp
  lastComment {note} hnote := by
    have hopen : step .between '#' = ⟨.comment, [], false⟩ := rfl
    have hend := wordsFrom_comment hnote []
    rw [List.append_nil] at hend
    rw [gives_words, wordsFrom_cons hopen, hend]
    rfl
  word {raw text cs c ws} hraw hne hhash hsep := by
    rw [gives_words, hraw.wordsFrom_between hne hhash, wordsFrom_cons_ends (step_bare_separator hsep),
      Option.map_map, Option.map_eq_some_iff]
    simp only [gives_words, Function.comp_apply, Substitution.foldr_consWord, List.append_nil,
      eq_comm]
  lastWord {raw text} hraw hne hhash := by
    have hend := hraw.wordsFrom_between hne hhash []
    rw [List.append_nil] at hend
    rw [gives_words, hend]
    simp [wordsFrom, atEnd, Substitution.foldr_consWord]
  unclosed {raw text cs ws} hraw hhash hopen := by
    have hquote : ∀ place, step place '\'' = ⟨.single, [], false⟩ →
        wordsFrom place ('\'' :: cs) = none := by
      intro place hplace
      rw [wordsFrom_cons hplace, wordsFrom_single_none hopen]
      rfl
    rw [gives_words]
    by_cases hne : raw = []
    · subst hne
      rw [List.nil_append, hquote .between rfl]
      simp
    · rw [hraw.wordsFrom_between hne hhash, hquote .bare rfl]
      simp

/-- Whatever splits by the rules finds the words that `words` finds. -/
theorem Splits.eq_ok_iff {split : String → Except SubstitutionError (List String)}
    (h : Splits split) {line : String} (hline : Plain line.toList) {ws : List String} :
    split line = .ok ws ↔ words line = .ok ws := by
  have hagree := h.agree words_splits (line_of_plain _ hline) (ws.map String.toList)
  simpa [Gives, Function.comp_def] using hagree

end LaunchPlan.CommandLine
