import LaunchPlan.Text.Blank

/-!
# Words of an expression

The arguments of `$(...)` are words separated by blanks. Blanks inside quotes
and inside parentheses do not separate. A word keeps its quotes; `unquote`
takes one matching pair away.
-/

namespace LaunchPlan.Substitution

/-- Where the splitter stands: the quote it is in, the open parentheses, and whether a word is
open. -/
structure WordState where
  quote : Option Char := none
  depth : Nat := 0
  inWord : Bool := false
  deriving DecidableEq, Repr

/-- What becomes of one character. -/
inductive WordStep
  /-- It belongs to the open word, or opens one. -/
  | keep
  /-- It is left out. -/
  | skip
  /-- It ends the open word. -/
  | finish
  deriving DecidableEq, Repr

namespace WordState

/-- One character. A closing parenthesis never opens a word. -/
def step (s : WordState) (c : Char) : WordState × WordStep :=
  match s.quote with
  | some q => ({ s with quote := if c = q then none else some q }, .keep)
  | none =>
    if c = '\'' || c = '"' then ({ s with quote := some c, inWord := true }, .keep)
    else if c = '(' then ({ s with depth := s.depth + 1, inWord := true }, .keep)
    else if c = ')' then ({ s with depth := s.depth - 1 }, if s.inWord then .keep else .skip)
    else if Text.isBlank c && s.depth = 0 then
      ({ s with inWord := false }, if s.inWord then .finish else .skip)
    else ({ s with inWord := true }, .keep)

/-- What a character can do. -/
inductive Steps (s : WordState) (c : Char) : WordState × WordStep → Prop
  | quoted {q : Char} : s.quote = some q →
      Steps s c ({ s with quote := if c = q then none else some q }, .keep)
  | quote : s.quote = none → c = '\'' ∨ c = '"' →
      Steps s c ({ s with quote := some c, inWord := true }, .keep)
  | opening : s.quote = none → c = '(' →
      Steps s c ({ s with depth := s.depth + 1, inWord := true }, .keep)
  | closing : s.quote = none → c = ')' →
      Steps s c ({ s with depth := s.depth - 1 }, if s.inWord then .keep else .skip)
  | blank : s.quote = none → Text.isBlank c = true → s.depth = 0 →
      Steps s c ({ s with inWord := false }, if s.inWord then .finish else .skip)
  | other : s.quote = none → c ≠ '\'' → c ≠ '"' → c ≠ '(' → c ≠ ')' →
      (Text.isBlank c = true → s.depth ≠ 0) → Steps s c ({ s with inWord := true }, .keep)

theorem steps (s : WordState) (c : Char) : Steps s c (s.step c) := by
  unfold step
  split
  · next q hs => exact .quoted hs
  · next hs =>
    by_cases hquote : c = '\'' ∨ c = '"'
    · simpa [hquote] using Steps.quote hs hquote
    · obtain ⟨hsingle, hdouble⟩ := not_or.1 hquote
      by_cases hopen : c = '('
      · simpa [hopen] using Steps.opening hs hopen
      · by_cases hclose : c = ')'
        · simpa [hclose] using Steps.closing hs hclose
        · by_cases hblank : Text.isBlank c = true ∧ s.depth = 0
          · simpa [hsingle, hdouble, hopen, hclose, hblank] using Steps.blank hs hblank.1 hblank.2
          · have hdepth : Text.isBlank c = true → s.depth ≠ 0 := fun h k => hblank ⟨h, k⟩
            simpa [hsingle, hdouble, hopen, hclose, hblank] using
              Steps.other hs hsingle hdouble hopen hclose hdepth

/-- Inside quotes and parentheses a word is open. -/
def Sound (s : WordState) : Prop :=
  s.quote ≠ none ∨ s.depth ≠ 0 → s.inWord = true

theorem sound_default : Sound {} := by
  simp [Sound]

theorem Sound.step {s : WordState} (hs : s.Sound) (c : Char) : (s.step c).1.Sound := by
  have hstep := s.steps c
  generalize s.step c = result at hstep
  cases hstep with
  | quoted hq => exact fun _ => hs (.inl (by simp [hq]))
  | quote hq hc => exact fun _ => rfl
  | opening hq hc => exact fun _ => rfl
  | closing hq hc =>
    rintro (hquote | hdepth)
    · exact hs (.inl hquote)
    · exact hs (.inr fun h => hdepth (by simp [h]))
  | blank hq hb hd =>
    rintro (hquote | hdepth)
    · exact absurd hq hquote
    · exact absurd hd hdepth
  | other hq => exact fun _ => rfl

/-- What becomes of a character, by whether a word is open before it and after it. -/
inductive Marks (s next : WordState) : WordStep → Prop
  | keep : next.inWord = true → Marks s next .keep
  | skip : s.inWord = false → next.inWord = false → Marks s next .skip
  | finish : s.inWord = true → next.inWord = false → Marks s next .finish

theorem Sound.marks {s : WordState} (hs : s.Sound) (c : Char) :
    Marks s (s.step c).1 (s.step c).2 := by
  have hstep := s.steps c
  generalize s.step c = result at hstep
  cases hstep with
  | quoted hq => exact .keep (hs (.inl (by simp [hq])))
  | quote hq hc => exact .keep rfl
  | opening hq hc => exact .keep rfl
  | closing hq hc =>
    cases hw : s.inWord with
    | true => exact .keep rfl
    | false => exact .skip hw rfl
  | blank hq hb hd =>
    cases hw : s.inWord with
    | true => exact .finish hw rfl
    | false => exact .skip hw rfl
  | other hq => exact .keep rfl

end WordState

/-- A character put before the first word. -/
def consWord (c : Char) : List (List Char) → List (List Char)
  | [] => [[c]]
  | word :: words => (c :: word) :: words

/-- The words of the text that is left; the first of them goes on with the open word, if there is
one. None when a quote is left open. -/
def wordsFrom (s : WordState) : List Char → Option (List (List Char))
  | [] => if s.quote.isSome then none else some (if s.inWord then [[]] else [])
  | c :: cs =>
    match s.step c with
    | (next, .keep) => (wordsFrom next cs).map (consWord c)
    | (next, .skip) => wordsFrom next cs
    | (next, .finish) => (wordsFrom next cs).map ([] :: ·)

/-- The words of a text, none when a quote is left open. -/
def words (cs : List Char) : Option (List (List Char)) :=
  wordsFrom {} cs

/-- The characters of words joined by single blanks. -/
def joinWords (ws : List (List Char)) : List Char :=
  [' '].intercalate ws

/-- The trimmed text, without its first and last character if these are the same quote. -/
def unquote (cs : List Char) : List Char :=
  match Text.trim cs with
  | [] => []
  | q :: rest =>
    if (q = '"' || q = '\'') && rest.getLast? = some q then rest.dropLast else q :: rest

/-- How many characters words joined by single blanks take, one more for an end. -/
def joinedLength : List (List Char) → Nat
  | [] => 0
  | word :: rest => word.length + 1 + joinedLength rest

theorem length_joinWords_le (ws : List (List Char)) : (joinWords ws).length ≤ joinedLength ws := by
  induction ws with
  | nil => simp [joinWords, joinedLength]
  | cons w rest ih =>
    cases rest with
    | nil => simp [joinWords, joinedLength]
    | cons v rest =>
      simp only [joinWords, joinedLength, List.intercalate, List.intersperse_cons_cons,
        List.flatten_cons, List.length_append, List.length_cons, List.length_nil] at ih ⊢
      omega

theorem joinedLength_consWord (c : Char) (ws : List (List Char)) (h : ws ≠ []) :
    joinedLength (consWord c ws) = joinedLength ws + 1 := by
  cases ws with
  | nil => exact absurd rfl h
  | cons w rest =>
    simp only [consWord, joinedLength, List.length_cons]
    omega

/-- A word is open while characters are kept, so there is a word to go on with. -/
theorem wordsFrom_ne_nil {s : WordState} {cs : List Char} {ws : List (List Char)} (hs : s.Sound)
    (hw : s.inWord = true) (h : wordsFrom s cs = some ws) : ws ≠ [] := by
  cases cs with
  | nil =>
    cases hq : s.quote <;> simp [wordsFrom, hq, hw] at h
    simp [← h]
  | cons c cs =>
    have hmarks := hs.marks c
    rw [wordsFrom] at h
    split at h
    · obtain ⟨vs, _, rfl⟩ := Option.map_eq_some_iff.1 h
      cases vs <;> simp [consWord]
    · next next hstep =>
      rw [hstep] at hmarks
      cases hmarks with
      | skip hclosed => rw [hw] at hclosed; cases hclosed
    · obtain ⟨vs, _, rfl⟩ := Option.map_eq_some_iff.1 h
      simp

/-- Joined by single blanks, the words are no longer than the text they were split from, give or
take the end of the last one. -/
theorem joinedLength_wordsFrom_le {s : WordState} {cs : List Char} {ws : List (List Char)}
    (hs : s.Sound) (h : wordsFrom s cs = some ws) : joinedLength ws ≤ cs.length + 1 := by
  induction cs generalizing s ws with
  | nil =>
    cases hq : s.quote <;> cases hw : s.inWord <;> simp [wordsFrom, hq, hw] at h <;>
      subst h <;> simp [joinedLength]
  | cons c cs ih =>
    have hnext := hs.step c
    have hmarks := hs.marks c
    rw [wordsFrom] at h
    split at h
    · next next hstep =>
      rw [hstep] at hnext hmarks
      obtain ⟨vs, hvs, rfl⟩ := Option.map_eq_some_iff.1 h
      cases hmarks with
      | keep hopen =>
        have := ih hnext hvs
        rw [joinedLength_consWord c vs (wordsFrom_ne_nil hnext hopen hvs), List.length_cons]
        omega
    · next next hstep =>
      rw [hstep] at hnext
      have := ih hnext h
      rw [List.length_cons]
      omega
    · next next hstep =>
      rw [hstep] at hnext
      obtain ⟨vs, hvs, rfl⟩ := Option.map_eq_some_iff.1 h
      have := ih hnext hvs
      simp only [joinedLength, List.length_cons, List.length_nil]
      omega

theorem joinedLength_words_le {cs : List Char} {ws : List (List Char)} (h : words cs = some ws) :
    joinedLength ws ≤ cs.length + 1 :=
  joinedLength_wordsFrom_le WordState.sound_default h

theorem length_le_joinedLength {w : List Char} {ws : List (List Char)} (h : w ∈ ws) :
    w.length + 1 ≤ joinedLength ws := by
  induction ws with
  | nil => simp at h
  | cons v rest ih =>
    rcases List.mem_cons.1 h with rfl | h
    · simp only [joinedLength]; omega
    · have := ih h
      simp only [joinedLength]; omega

theorem length_unquote_le (cs : List Char) : (unquote cs).length ≤ cs.length := by
  have h := Text.length_trim_le cs
  unfold unquote
  split
  · simp
  · next q rest heq =>
    rw [heq] at h
    simp only [List.length_cons] at h
    split <;> simp <;> omega

end LaunchPlan.Substitution
