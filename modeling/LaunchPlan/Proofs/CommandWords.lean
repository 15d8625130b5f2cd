import LaunchPlan.CommandLine.Words
import LaunchPlan.Proofs.QuotedText

/-!
# Words of a command line

What is in single quotes is kept in a word, and words in single quotes are split where they were
joined. Without double quotes and backslashes, the words are never longer than the line without its
single quotes, and as long only if nothing but single separators is left out.
-/

namespace LaunchPlan.CommandLine

open Substitution (consWord quoted joinWords joinedLength)

/-- A command line has these words when the splitter finds their characters. -/
theorem words_eq_ok_iff {line : String} {ws : List String} :
    words line = .ok ws ↔ wordsFrom .between line.toList = some (ws.map String.toList) := by
  have hround : ws = (ws.map String.toList).map String.ofList := by
    simp [Function.comp_def]
  unfold words
  split
  · next vs hvs =>
    rw [hvs, Except.ok.injEq, Option.some.injEq]
    constructor
    · rintro rfl
      simp [Function.comp_def]
    · rintro rfl
      exact hround.symm
  · next hnone => simp [hnone]

section Words

variable {place next : Place} {c : Char} {cs text : List Char}

theorem wordsFrom_cons (h : step place c = ⟨next, text, false⟩) (cs : List Char) :
    wordsFrom place (c :: cs) = (wordsFrom next cs).map (text.foldr consWord) := by
  rw [wordsFrom, h]
  rfl

theorem wordsFrom_cons_ends (h : step place c = ⟨next, text, true⟩) (cs : List Char) :
    wordsFrom place (c :: cs) = (wordsFrom next cs).map ([] :: ·) := by
  rw [wordsFrom, h]
  rfl

/-- A character that quotes or keeps nothing. -/
def isOrdinary (c : Char) : Bool :=
  c ≠ '\'' && c ≠ '"' && c ≠ '\\'

theorem isOrdinary_iff : isOrdinary c = true ↔ c ≠ '\'' ∧ c ≠ '"' ∧ c ≠ '\\' := by
  simp [isOrdinary, and_assoc]

theorem not_quote_of_ordinary (h : ∀ c ∈ cs, isOrdinary c = true) : '\'' ∉ cs :=
  fun hmem => (isOrdinary_iff.1 (h _ hmem)).1 rfl

theorem step_bare (hc : isOrdinary c = true) (hsep : isSeparator c = false) :
    step .bare c = ⟨.bare, [c], false⟩ := by
  obtain ⟨hsingle, hdouble, hback⟩ := isOrdinary_iff.1 hc
  simp [step, hsingle, hdouble, hback, hsep]

theorem separator_cases (hsep : isSeparator c = true) : c = ' ' ∨ c = '\t' ∨ c = '\n' := by
  simpa [isSeparator, or_assoc] using hsep

theorem step_bare_separator (hsep : isSeparator c = true) :
    step .bare c = ⟨.between, [], true⟩ := by
  rcases separator_cases hsep with rfl | rfl | rfl <;> rfl

theorem step_between (hc : isOrdinary c = true) (hsep : isSeparator c = false)
    (hcomment : c ≠ '#') : step .between c = ⟨.bare, [c], false⟩ := by
  obtain ⟨hsingle, hdouble, hback⟩ := isOrdinary_iff.1 hc
  simp [step, hsingle, hdouble, hback, hsep, hcomment]

theorem step_between_separator (hsep : isSeparator c = true) :
    step .between c = ⟨.between, [], false⟩ := by
  rcases separator_cases hsep with rfl | rfl | rfl <;> rfl

theorem step_single (hc : c ≠ '\'') : step .single c = ⟨.single, [c], false⟩ := by
  simp [step, hc]

/-- Inside a word, text that quotes and separates nothing goes on with it. -/
theorem wordsFrom_bare (h : ∀ c ∈ cs, isOrdinary c = true ∧ isSeparator c = false)
    (rest : List Char) :
    wordsFrom .bare (cs ++ rest) = (wordsFrom .bare rest).map (cs.foldr consWord) := by
  induction cs with
  | nil => simp
  | cons c cs ih =>
    obtain ⟨⟨hc, hsep⟩, hcs⟩ := List.forall_mem_cons.1 h
    rw [List.cons_append, wordsFrom_cons (step_bare hc hsep), ih hcs, Option.map_map]
    rfl

/-- A word begins with any such character but one. -/
theorem wordsFrom_between (hc : isOrdinary c = true) (hsep : isSeparator c = false)
    (hcomment : c ≠ '#') (cs : List Char) :
    wordsFrom .between (c :: cs) = wordsFrom .bare (c :: cs) := by
  rw [wordsFrom_cons (step_between hc hsep hcomment), wordsFrom_cons (step_bare hc hsep)]

/-- Inside single quotes, everything up to the next one goes on with the word. -/
theorem wordsFrom_single (h : '\'' ∉ cs) (rest : List Char) :
    wordsFrom .single (cs ++ '\'' :: rest) = (wordsFrom .bare rest).map (cs.foldr consWord) := by
  induction cs with
  | nil => exact wordsFrom_cons rfl rest
  | cons c cs ih =>
    have hc : c ≠ '\'' := (List.ne_of_not_mem_cons h).symm
    rw [List.cons_append, wordsFrom_cons (step_single hc), ih (List.not_mem_of_not_mem_cons h),
      Option.map_map]
    rfl

theorem wordsFrom_quoted (h : '\'' ∉ cs) (rest : List Char) :
    wordsFrom .between (quoted cs ++ rest) = (wordsFrom .bare rest).map (cs.foldr consWord) := by
  have htext : quoted cs ++ rest = '\'' :: (cs ++ '\'' :: rest) := by simp [quoted]
  have hstep : step .between '\'' = ⟨.single, [], false⟩ := rfl
  rw [htext, wordsFrom_cons hstep, wordsFrom_single h, Option.map_map]
  rfl

/-- Words in single quotes are split where they were joined. -/
theorem wordsFrom_joinWords_quoted {ws : List (List Char)} (h : ∀ w ∈ ws, '\'' ∉ w) :
    wordsFrom .between (joinWords (ws.map quoted)) = some ws := by
  induction ws with
  | nil => rfl
  | cons w ws ih =>
    obtain ⟨hw, hws⟩ := List.forall_mem_cons.1 h
    have hopen : ∀ vs, w.foldr consWord ([] :: vs) = w :: vs := fun vs => by
      rw [Substitution.foldr_consWord, List.append_nil]
    cases ws with
    | nil =>
      have hend : wordsFrom .between (quoted w ++ []) = some [w] := by
        rw [wordsFrom_quoted hw]
        exact congrArg some (hopen [])
      simpa using hend
    | cons v ws =>
      have hblank : ∀ rest, wordsFrom .bare (' ' :: rest) =
          (wordsFrom .between rest).map ([] :: ·) := wordsFrom_cons_ends rfl
      rw [List.map_cons, List.map_cons, Substitution.joinWords_cons_cons, wordsFrom_quoted hw,
        hblank, ← List.map_cons, ih hws]
      exact congrArg some (hopen _)

end Words

section Budget

/-- The places reached without double quotes and backslashes. -/
inductive Place.Simple : Place → Prop
  | between : Simple .between
  | bare : Simple .bare
  | single : Simple .single
  | comment : Simple .comment

/-- The ones of them where a word is open. -/
inductive Place.InWord : Place → Prop
  | bare : InWord .bare
  | single : InWord .single

theorem Place.InWord.simple {place : Place} (h : place.InWord) : place.Simple := by
  cases h with
  | bare => exact .bare
  | single => exact .single

/-- What a character can do that is no double quote and no backslash. -/
inductive Spends (place : Place) (c : Char) : Step → Prop
  | keep {next : Place} : c ≠ '\'' → next.InWord → Spends place c ⟨next, [c], false⟩
  | finish : c ≠ '\'' → Spends place c ⟨.between, [], true⟩
  | use {next : Place} : next.Simple → (place.InWord → next.InWord) →
      Spends place c ⟨next, [], false⟩

theorem spends_between {c : Char} (hdouble : c ≠ '"') (hback : c ≠ '\\') :
    Spends .between c (step .between c) := by
  by_cases hsingle : c = '\''
  · subst hsingle
    exact .use .single (by rintro ⟨⟩)
  · cases hsep : isSeparator c with
    | true =>
      rw [step_between_separator hsep]
      exact .use .between (by rintro ⟨⟩)
    | false =>
      by_cases hcomment : c = '#'
      · subst hcomment
        exact .use .comment (by rintro ⟨⟩)
      · rw [step_between (isOrdinary_iff.2 ⟨hsingle, hdouble, hback⟩) hsep hcomment]
        exact .keep hsingle .bare

theorem spends_bare {c : Char} (hdouble : c ≠ '"') (hback : c ≠ '\\') :
    Spends .bare c (step .bare c) := by
  by_cases hsingle : c = '\''
  · subst hsingle
    exact .use .single fun _ => .single
  · cases hsep : isSeparator c with
    | true =>
      rw [step_bare_separator hsep]
      exact .finish hsingle
    | false =>
      rw [step_bare (isOrdinary_iff.2 ⟨hsingle, hdouble, hback⟩) hsep]
      exact .keep hsingle .bare

theorem Place.Simple.spends {place : Place} (h : place.Simple) {c : Char} (hdouble : c ≠ '"')
    (hback : c ≠ '\\') : Spends place c (step place c) := by
  cases h with
  | between => exact spends_between hdouble hback
  | bare => exact spends_bare hdouble hback
  | single =>
    by_cases hsingle : c = '\''
    · subst hsingle
      exact .use .bare fun _ => .bare
    · rw [step_single hsingle]
      exact .keep hsingle .single
  | comment =>
    rw [step]
    split
    · exact .use .between (by rintro ⟨⟩)
    · exact .use .comment (by rintro ⟨⟩)

/-- Where a word is open there is one to go on with. -/
theorem wordsFrom_ne_nil {place : Place} (hp : place.InWord) {cs : List Char}
    (hcs : ∀ c ∈ cs, c ≠ '"' ∧ c ≠ '\\') {ws : List (List Char)}
    (h : wordsFrom place cs = some ws) : ws ≠ [] := by
  induction cs generalizing place ws with
  | nil =>
    cases hp with
    | bare =>
      cases h
      exact List.cons_ne_nil _ _
    | single => cases h
  | cons c cs ih =>
    obtain ⟨⟨hdouble, hback⟩, hcs⟩ := List.forall_mem_cons.1 hcs
    have hspends := hp.simple.spends hdouble hback
    generalize hstep : step place c = s at hspends
    cases hspends with
    | keep hsingle hnext =>
      rw [wordsFrom_cons hstep] at h
      obtain ⟨vs, -, rfl⟩ := Option.map_eq_some_iff.1 h
      cases vs <;> exact List.cons_ne_nil _ _
    | finish hsingle =>
      rw [wordsFrom_cons_ends hstep] at h
      obtain ⟨vs, -, rfl⟩ := Option.map_eq_some_iff.1 h
      exact List.cons_ne_nil _ _
    | use hnext hopen =>
      rw [wordsFrom_cons hstep] at h
      obtain ⟨vs, hvs, rfl⟩ := Option.map_eq_some_iff.1 h
      exact ih (hopen hp) hcs hvs

/-- Joined by single blanks, the words are no longer than the line without its single quotes, give
or take the end of the last one. -/
theorem joinedLength_wordsFrom_le {place : Place} (hp : place.Simple) {cs : List Char}
    (hcs : ∀ c ∈ cs, c ≠ '"' ∧ c ≠ '\\') {ws : List (List Char)}
    (h : wordsFrom place cs = some ws) :
    joinedLength ws + cs.count '\'' ≤ cs.length + 1 := by
  induction cs generalizing place ws with
  | nil => cases hp <;> cases h <;> simp [joinedLength]
  | cons c cs ih =>
    obtain ⟨⟨hdouble, hback⟩, hcs⟩ := List.forall_mem_cons.1 hcs
    have hspends := hp.spends hdouble hback
    generalize hstep : step place c = s at hspends
    cases hspends with
    | keep hsingle hnext =>
      rw [wordsFrom_cons hstep] at h
      obtain ⟨vs, hvs, rfl⟩ := Option.map_eq_some_iff.1 h
      have hrest := ih hnext.simple hcs hvs
      have hword := Substitution.joinedLength_consWord c vs (wordsFrom_ne_nil hnext hcs hvs)
      rw [List.count_cons_of_ne hsingle, List.length_cons, List.foldr_cons, List.foldr_nil, hword]
      omega
    | finish hsingle =>
      rw [wordsFrom_cons_ends hstep] at h
      obtain ⟨vs, hvs, rfl⟩ := Option.map_eq_some_iff.1 h
      have hrest := ih .between hcs hvs
      rw [List.count_cons_of_ne hsingle, List.length_cons, joinedLength, List.length_nil]
      omega
    | use hnext hopen =>
      rw [wordsFrom_cons hstep] at h
      obtain ⟨vs, hvs, rfl⟩ := Option.map_eq_some_iff.1 h
      have hrest := ih hnext hcs hvs
      have hcount : (c :: cs).count '\'' ≤ cs.count '\'' + 1 := by
        rw [List.count_cons]
        split <;> omega
      rw [List.foldr_nil, List.length_cons]
      omega

end Budget

end LaunchPlan.CommandLine
