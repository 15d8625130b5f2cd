import LaunchPlan.Proofs.BalancedText
import Mathlib.Data.List.Induction
import Mathlib.Data.List.Pairwise

/-!
# Where the words of a text stand

The words of a text are pieces of it, in order and apart. What stands in none of them is a blank
outside of quotes and parentheses, or a closing parenthesis where a word would begin.
-/

namespace LaunchPlan.Substitution

/-- The quote and the parentheses that are open at a place of a text. A parenthesis that closes none
does not count. -/
structure Nesting where
  quote : Option Char := none
  depth : Nat := 0
  deriving DecidableEq

def Nesting.step (n : Nesting) (c : Char) : Nesting :=
  match n.quote with
  | some q => { n with quote := if c = q then none else some q }
  | none =>
    if c = '\'' || c = '"' then { n with quote := some c }
    else if c = '(' then { n with depth := n.depth + 1 }
    else if c = ')' then { n with depth := n.depth - 1 }
    else n

theorem Nesting.step_of_not_delimiter {n : Nesting} {c : Char} (hn : n.quote = none)
    (hc : isDelimiter c = false) : n.step c = n := by
  simp only [isDelimiter, Bool.or_eq_false_iff, decide_eq_false_iff_not] at hc
  simp [step, hn, hc]

theorem Nesting.foldl_of_not_delimiter {n : Nesting} {cs : List Char} (hn : n.quote = none)
    (hcs : ∀ c ∈ cs, isDelimiter c = false) : cs.foldl step n = n := by
  induction cs with
  | nil => rfl
  | cons c cs ih =>
    obtain ⟨hc, hcs⟩ := List.forall_mem_cons.1 hcs
    rw [List.foldl_cons, step_of_not_delimiter hn hc, ih hcs]

/-- Inside a quote only its end counts. -/
theorem Nesting.foldl_quoted {n : Nesting} {q : Char} {cs : List Char} (hn : n.quote = some q)
    (hcs : q ∉ cs) : cs.foldl step n = n := by
  induction cs with
  | nil => rfl
  | cons c cs ih =>
    have hc : c ≠ q := (List.ne_of_not_mem_cons hcs).symm
    have hstep : n.step c = n := by
      rw [step, hn]
      simp [hc, ← hn]
    rw [List.foldl_cons, hstep, ih (List.not_mem_of_not_mem_cons hcs)]

/-- What is open after a text. -/
def nestingAfter (cs : List Char) : Nesting :=
  cs.foldl Nesting.step {}

/-- A blank outside of quotes and parentheses. -/
def Separates (before : List Char) (c : Char) : Prop :=
  Text.isBlank c = true ∧ nestingAfter before = {}

/-- After the text no word is open: it is empty, or ends with a blank that separates words, or with
a closing parenthesis where no word was open. -/
inductive Between : List Char → Prop
  | start : Between []
  | blank {before : List Char} {c : Char} : Separates before c → Between (before ++ [c])
  | stray {before : List Char} : Between before → Between (before ++ [')'])

/-- A character after `before` that belongs to no word. -/
def LeftOut (before : List Char) (c : Char) : Prop :=
  Separates before c ∨ c = ')' ∧ Between before

theorem between_concat {before : List Char} {c : Char} :
    Between (before ++ [c]) ↔ LeftOut before c := by
  constructor
  · intro h
    generalize htext : before ++ [c] = text at h
    cases h with
    | start => simp at htext
    | blank hsep =>
      obtain ⟨rfl, hc⟩ := List.append_inj' htext rfl
      cases hc
      exact .inl hsep
    | stray hbetween =>
      obtain ⟨rfl, hc⟩ := List.append_inj' htext rfl
      cases hc
      exact .inr ⟨rfl, hbetween⟩
  · rintro (hsep | ⟨rfl, hbetween⟩)
    · exact .blank hsep
    · exact .stray hbetween

namespace WordState

def nesting (s : WordState) : Nesting :=
  ⟨s.quote, s.depth⟩

/-- Where the splitter stands after a text. -/
def after (cs : List Char) : WordState :=
  cs.foldl (fun s c => (s.step c).1) {}

theorem after_concat (before : List Char) (c : Char) :
    after (before ++ [c]) = ((after before).step c).1 := by
  simp [after]

theorem nesting_step (s : WordState) (c : Char) : (s.step c).1.nesting = s.nesting.step c := by
  have hstep := s.steps c
  generalize s.step c = result at hstep
  cases hstep with
  | quoted hq => simp [nesting, Nesting.step, hq]
  | quote hq hc => simp [nesting, Nesting.step, hq, hc]
  | opening hq hc => simp [nesting, Nesting.step, hq, hc]
  | closing hq hc => simp [nesting, Nesting.step, hq, hc]
  | blank hq hb hd =>
    exact (Nesting.step_of_not_delimiter hq (not_delimiter_of_isBlank hb).1).symm
  | other hq hsingle hdouble hopen hclose =>
    simp [nesting, Nesting.step, hq, hsingle, hdouble, hopen, hclose]

theorem nesting_after (cs : List Char) : (after cs).nesting = nestingAfter cs := by
  induction cs using List.reverseRecOn with
  | nil => rfl
  | append_singleton before c ih =>
    rw [after_concat, nesting_step, ih]
    simp [nestingAfter]

/-- No words are given where a quote is left open. -/
theorem wordsFrom_eq_none_iff (s : WordState) (cs : List Char) :
    wordsFrom s cs = none ↔ (cs.foldl Nesting.step s.nesting).quote ≠ none := by
  induction cs generalizing s with
  | nil => cases hq : s.quote <;> simp [wordsFrom, nesting, hq]
  | cons c cs ih =>
    have hnext := s.nesting_step c
    rw [List.foldl_cons, ← hnext, ← ih, wordsFrom]
    split
    · next next hstep => rw [hstep, Option.map_eq_none_iff]
    · next next hstep => rw [hstep]
    · next next hstep => rw [hstep, Option.map_eq_none_iff]

theorem sound_after (cs : List Char) : (after cs).Sound := by
  induction cs using List.reverseRecOn with
  | nil => exact sound_default
  | append_singleton before c ih =>
    rw [after_concat]
    exact ih.step c

/-- After a character no word is open where it separates words, or closes a parenthesis and no word
is open before it. -/
theorem Sound.inWord_step {s : WordState} (hs : s.Sound) (c : Char) :
    (s.step c).1.inWord = false ↔
      Text.isBlank c = true ∧ s.nesting = {} ∨ c = ')' ∧ s.inWord = false := by
  have hstep := s.steps c
  generalize s.step c = result at hstep
  cases hstep with
  | quoted hq =>
    have hw : s.inWord = true := hs (.inl (by simp [hq]))
    simp [nesting, hq, hw]
  | quote hq hc =>
    have hblank : Text.isBlank c = false := by rcases hc with rfl | rfl <;> decide
    have hclose : c ≠ ')' := by rcases hc with rfl | rfl <;> decide
    simp [hblank, hclose]
  | opening hq hc =>
    have hblank : Text.isBlank c = false := by rw [hc]; decide
    have hclose : c ≠ ')' := by rw [hc]; decide
    simp [hblank, hclose]
  | closing hq hc =>
    have hblank : Text.isBlank ')' = false := by decide
    subst hc
    simp [hblank]
  | blank hq hb hd => simp [nesting, hq, hb, hd]
  | other hq hsingle hdouble hopen hclose hdepth =>
    have hnest : Text.isBlank c = true → s.nesting ≠ {} := fun hb h =>
      hdepth hb (congrArg Nesting.depth h)
    simpa [hclose] using hnest

end WordState

theorem between_iff (before : List Char) :
    Between before ↔ (WordState.after before).inWord = false := by
  induction before using List.reverseRecOn with
  | nil => exact ⟨fun _ => rfl, fun _ => .start⟩
  | append_singleton before c ih =>
    rw [between_concat, LeftOut, Separates, ih, WordState.after_concat,
      (WordState.sound_after before).inWord_step, WordState.nesting_after]

/-- A piece of a text. -/
structure Span where
  start : Nat
  stop : Nat

namespace Span

/-- The characters of the piece. -/
def text (span : Span) (cs : List Char) : List Char :=
  cs.extract span.start span.stop

def Contains (span : Span) (i : Nat) : Prop :=
  span.start ≤ i ∧ i < span.stop

/-- One of the two pieces ends before the other begins. -/
def Disjoint (first second : Span) : Prop :=
  first.stop < second.start ∨ second.stop < first.start

instance : Std.Symm Disjoint :=
  ⟨fun _ _ => Or.symm⟩

end Span

theorem extract_cons {before after : List Char} {c : Char} {stop : Nat} (h : before.length < stop) :
    (before ++ c :: after).extract before.length stop =
      c :: (before ++ c :: after).extract (before.length + 1) stop := by
  obtain ⟨n, rfl⟩ := Nat.exists_eq_add_of_lt h
  have hn : before.length + n + 1 - before.length = n + 1 := by omega
  have hn' : before.length + n + 1 - (before.length + 1) = n := by omega
  simp [List.extract_eq_take_drop, hn, hn', ← List.drop_drop]

/-- Spans of the words of what is left of a text from the place `i` on, where the splitter is in
state `s`. The first span goes on with the word that is open, which may end at once. -/
structure Placed (text : List Char) (i : Nat) (s : WordState) (ws : List (List Char))
    (spans : List Span) : Prop where
  texts : ws = spans.map fun span => span.text text
  ordered : spans.Pairwise fun first second => first.stop < second.start
  bounds : ∀ span ∈ spans, i ≤ span.start ∧ span.start ≤ span.stop ∧ span.stop ≤ text.length
  proper : ∀ span ∈ spans, span.start < span.stop ∨ s.inWord = true ∧ span.start = i
  goesOn : s.inWord = true → ∃ stop rest, spans = ⟨i, stop⟩ :: rest
  covers : ∀ j, i ≤ j → j < text.length →
    ((∃ span ∈ spans, span.Contains j) ↔ (WordState.after (text.take (j + 1))).inWord = true)

namespace Placed

variable {before rest : List Char} {c : Char} {s next : WordState} {ws : List (List Char)}
  {spans : List Span}

theorem ofEnd (text : List Char) (s : WordState) :
    Placed text text.length s (if s.inWord then [[]] else [])
      (if s.inWord then [⟨text.length, text.length⟩] else []) where
  texts := by cases s.inWord <;> simp [Span.text]
  ordered := by cases s.inWord <;> simp
  bounds := by cases s.inWord <;> simp
  proper := by cases s.inWord <;> simp
  goesOn h := ⟨text.length, [], by simp [h]⟩
  covers j hj hlt := absurd hlt (Nat.not_lt.2 hj)

/-- What holds from a place on holds from the one before it, as far as that place goes. -/
theorem covers_succ (h : Placed (before ++ c :: rest) (before.length + 1) next ws spans)
    {spans' : List Span}
    (hhere : (∃ span ∈ spans', span.Contains before.length) ↔ next.inWord = true)
    (hnext : WordState.after (before ++ [c]) = next)
    (hlater : ∀ j, before.length < j →
      ((∃ span ∈ spans', span.Contains j) ↔ ∃ span ∈ spans, span.Contains j))
    (j : Nat) (hj : before.length ≤ j) (hlt : j < (before ++ c :: rest).length) :
    (∃ span ∈ spans', span.Contains j) ↔
      (WordState.after ((before ++ c :: rest).take (j + 1))).inWord = true := by
  by_cases heq : j = before.length
  · subst heq
    have htake : (before ++ c :: rest).take (before.length + 1) = before ++ [c] := by
      rw [List.append_cons]
      exact List.take_left' (by simp)
    rw [htake, hnext, hhere]
  · have hgt : before.length < j := by omega
    rw [hlater j hgt]
    exact h.covers j hgt hlt

theorem keep (hnext : WordState.after (before ++ [c]) = next) (hin : next.inWord = true)
    (h : Placed (before ++ c :: rest) (before.length + 1) next ws spans) :
    ∃ spans, Placed (before ++ c :: rest) before.length s (consWord c ws) spans := by
  obtain ⟨stop, others, rfl⟩ := h.goesOn hin
  have hhead := h.bounds _ (List.mem_cons_self ..)
  have hstop : before.length < stop := Nat.lt_of_succ_le hhead.2.1
  obtain ⟨hfirst, hothers⟩ := List.pairwise_cons.1 h.ordered
  refine ⟨⟨before.length, stop⟩ :: others, ?_, ?_, ?_, ?_, ?_, ?_⟩
  · rw [h.texts, List.map_cons, List.map_cons, consWord]
    exact congrArg (· :: _) (extract_cons hstop).symm
  · exact List.pairwise_cons.2 ⟨hfirst, hothers⟩
  · intro span hspan
    rcases List.mem_cons.1 hspan with rfl | hmem
    · exact ⟨Nat.le_refl _, Nat.le_of_lt hstop, hhead.2.2⟩
    · have hbounds := h.bounds span (List.mem_cons_of_mem _ hmem)
      omega
  · intro span hspan
    rcases List.mem_cons.1 hspan with rfl | hmem
    · exact .inl hstop
    · have hlater : stop < span.start := hfirst span hmem
      rcases h.proper span (List.mem_cons_of_mem _ hmem) with hlt | ⟨-, heq⟩
      · exact .inl hlt
      · omega
  · exact fun _ => ⟨stop, others, rfl⟩
  · refine h.covers_succ ?_ hnext ?_
    · have hcontains : Span.Contains ⟨before.length, stop⟩ before.length :=
        ⟨Nat.le_refl _, hstop⟩
      simp [hin, hcontains]
    · intro j hj
      have hcontains : Span.Contains ⟨before.length, stop⟩ j ↔
          Span.Contains ⟨before.length + 1, stop⟩ j := by
        simp only [Span.Contains]
        omega
      simp only [List.mem_cons, exists_eq_or_imp, hcontains]

/-- No later word contains the place. -/
theorem not_contains (h : Placed (before ++ c :: rest) (before.length + 1) next ws spans) :
    ¬ ∃ span ∈ spans, span.Contains before.length := by
  rintro ⟨span, hmem, hstart, -⟩
  have hbounds := h.bounds span hmem
  omega

theorem skip (hnext : WordState.after (before ++ [c]) = next) (hin : s.inWord = false)
    (hout : next.inWord = false)
    (h : Placed (before ++ c :: rest) (before.length + 1) next ws spans) :
    Placed (before ++ c :: rest) before.length s ws spans where
  texts := h.texts
  ordered := h.ordered
  bounds span hspan := by
    have hbounds := h.bounds span hspan
    omega
  proper span hspan := by
    rcases h.proper span hspan with hlt | ⟨hopen, -⟩
    · exact .inl hlt
    · rw [hout] at hopen
      cases hopen
  goesOn hopen := by
    rw [hin] at hopen
    cases hopen
  covers := h.covers_succ (by simp [hout, h.not_contains]) hnext fun j hj => Iff.rfl

theorem finish (hnext : WordState.after (before ++ [c]) = next) (hin : s.inWord = true)
    (hout : next.inWord = false)
    (h : Placed (before ++ c :: rest) (before.length + 1) next ws spans) :
    Placed (before ++ c :: rest) before.length s ([] :: ws)
      (⟨before.length, before.length⟩ :: spans) where
  texts := by
    rw [h.texts, List.map_cons]
    simp [Span.text]
  ordered := by
    refine List.pairwise_cons.2 ⟨fun span hspan => ?_, h.ordered⟩
    exact Nat.lt_of_succ_le (h.bounds span hspan).1
  bounds span hspan := by
    rcases List.mem_cons.1 hspan with rfl | hmem
    · simp
    · have hbounds := h.bounds span hmem
      omega
  proper span hspan := by
    rcases List.mem_cons.1 hspan with rfl | hmem
    · exact .inr ⟨hin, rfl⟩
    · rcases h.proper span hmem with hlt | ⟨hopen, -⟩
      · exact .inl hlt
      · rw [hout] at hopen
        cases hopen
  goesOn _ := ⟨before.length, spans, rfl⟩
  covers := by
    have hempty : ∀ j, ¬ Span.Contains ⟨before.length, before.length⟩ j := fun j hj =>
      absurd (Nat.lt_of_le_of_lt hj.1 hj.2) (Nat.lt_irrefl _)
    refine h.covers_succ ?_ hnext fun j hj => ?_
    · simp [hout, hempty, h.not_contains]
    · simp [hempty]

end Placed

/-- By induction on what is left of the text, with a case for all that becomes of a character. -/
theorem exists_placed (before rest : List Char) {ws : List (List Char)}
    (h : wordsFrom (WordState.after before) rest = some ws) :
    ∃ spans, Placed (before ++ rest) before.length (WordState.after before) ws spans := by
  induction rest generalizing before ws with
  | nil =>
    rw [wordsFrom] at h
    split at h
    · cases h
    · cases h
      rw [List.append_nil]
      exact ⟨_, .ofEnd before _⟩
  | cons c rest ih =>
    have hnext := WordState.after_concat before c
    have hmarks := (WordState.sound_after before).marks c
    have hrest := @ih (before ++ [c])
    rw [hnext, ← List.append_cons, List.length_append, List.length_singleton] at hrest
    rw [wordsFrom] at h
    split at h
    · next next hstep =>
      rw [hstep] at hnext hmarks hrest
      obtain ⟨vs, hvs, rfl⟩ := Option.map_eq_some_iff.1 h
      obtain ⟨spans, hspans⟩ := hrest hvs
      cases hmarks with
      | keep hopen => exact hspans.keep hnext hopen
    · next next hstep =>
      rw [hstep] at hnext hmarks hrest
      obtain ⟨spans, hspans⟩ := hrest h
      cases hmarks with
      | skip hin hout => exact ⟨spans, hspans.skip hnext hin hout⟩
    · next next hstep =>
      rw [hstep] at hnext hmarks hrest
      obtain ⟨vs, hvs, rfl⟩ := Option.map_eq_some_iff.1 h
      obtain ⟨spans, hspans⟩ := hrest hvs
      cases hmarks with
      | finish hin hout => exact ⟨_, hspans.finish hnext hin hout⟩

/-- Pieces of a text that are not empty, in order and apart from each other. -/
structure Apart (cs : List Char) (spans : List Span) : Prop where
  ordered : spans.Pairwise fun first second => first.stop < second.start
  nonempty : ∀ span ∈ spans, span.start < span.stop ∧ span.stop ≤ cs.length

/-- No place is in two of them. -/
theorem Apart.unique {cs : List Char} {spans : List Span} (h : Apart cs spans) {first second : Span}
    (hfirst : first ∈ spans) (hsecond : second ∈ spans) {i : Nat} (hi : first.Contains i)
    (hj : second.start ≤ i ∧ i ≤ second.stop) : first = second := by
  by_contra hne
  have hdisjoint : spans.Pairwise Span.Disjoint := h.ordered.imp .inl
  obtain ⟨hstart, hstop⟩ := hi
  rcases hdisjoint.forall hfirst hsecond hne with hlt | hlt <;> omega

section Whole

variable {cs : List Char} {ws : List (List Char)} {spans : List Span}

theorem Placed.apart (h : Placed cs 0 {} ws spans) : Apart cs spans where
  ordered := h.ordered
  nonempty span hspan := by
    have hbounds := h.bounds span hspan
    rcases h.proper span hspan with hlt | ⟨hopen, -⟩
    · exact ⟨hlt, hbounds.2.2⟩
    · cases hopen

theorem Placed.contains_iff (h : Placed cs 0 {} ws spans) {before after : List Char} {c : Char}
    (heq : cs = before ++ c :: after) :
    (∃ span ∈ spans, span.Contains before.length) ↔ ¬ LeftOut before c := by
  subst heq
  have htake : (before ++ c :: after).take (before.length + 1) = before ++ [c] := by
    rw [List.append_cons]
    exact List.take_left' (by simp)
  rw [h.covers before.length (Nat.zero_le _) (by simp), ← between_concat, between_iff, htake,
    Bool.not_eq_false]

/-- A word ends only before a blank that separates words. -/
theorem Placed.separates (h : Placed cs 0 {} ws spans) {before after : List Char} {c : Char}
    (heq : cs = before ++ c :: after) {span : Span} (hspan : span ∈ spans)
    (hstop : span.stop = before.length) : Separates before c := by
  have hproper := (h.apart.nonempty span hspan).1
  have hleft : LeftOut before c := by
    by_contra hkept
    obtain ⟨other, hother, hcontains⟩ := (h.contains_iff heq).2 hkept
    have hsame := h.apart.unique hother hspan hcontains (by omega)
    rw [← hstop, hsame] at hcontains
    exact Nat.lt_irrefl _ hcontains.2
  refine hleft.resolve_right fun ⟨_, hbetween⟩ => ?_
  -- The word that ends there has a last character.
  obtain ⟨init, d, rfl⟩ : ∃ init d, before = init ++ [d] := by
    rcases List.eq_nil_or_concat before with rfl | ⟨init, d, hinit⟩
    · simp at hstop
      omega
    · exact ⟨init, d, by simpa using hinit⟩
  rw [List.length_append, List.length_singleton] at hstop
  have hcontains : span.Contains init.length := ⟨by omega, by omega⟩
  have hlast : cs = init ++ d :: (c :: after) := by
    rw [heq, List.append_assoc, List.singleton_append]
  exact (h.contains_iff hlast).1 ⟨span, hspan, hcontains⟩ (between_concat.1 hbetween)

/-- The words of a text are pieces of it. Every character is in exactly one word, unless it is a
blank that separates words or a closing parenthesis where a word would begin; and only blanks that
separate words end them. -/
theorem words_placed (h : splitWords cs = .ok ws) :
    ∃ spans : List Span, ws = spans.map (fun span => span.text cs) ∧ Apart cs spans ∧
      (∀ before c after, cs = before ++ c :: after → ¬ LeftOut before c →
        ∃! span, span ∈ spans ∧ span.Contains before.length) ∧
      (∀ before c after, cs = before ++ c :: after → LeftOut before c →
        ∀ span ∈ spans, ¬ span.Contains before.length) ∧
      ∀ before c after, cs = before ++ c :: after → (∃ span ∈ spans, span.stop = before.length) →
        Separates before c := by
  obtain ⟨spans, hspans⟩ := exists_placed [] cs (words_of_splitWords h)
  have hplaced : Placed cs 0 {} ws spans := hspans
  refine ⟨spans, hplaced.texts, hplaced.apart, ?_, ?_, ?_⟩
  · intro before c after heq hkept
    obtain ⟨span, hspan, hcontains⟩ := (hplaced.contains_iff heq).2 hkept
    refine ⟨span, ⟨hspan, hcontains⟩, fun other hother => ?_⟩
    have hwithin : span.start ≤ before.length ∧ before.length ≤ span.stop :=
      ⟨hcontains.1, Nat.le_of_lt hcontains.2⟩
    exact hplaced.apart.unique hother.1 hspan hother.2 hwithin
  · intro before c after heq hleft span hspan hcontains
    exact (hplaced.contains_iff heq).1 ⟨span, hspan, hcontains⟩ hleft
  · rintro before c after heq ⟨span, hspan, hstop⟩
    exact hplaced.separates heq hspan hstop

end Whole

theorem mixed_placed :
    splitWords "a ) 'b (c' (d e))f".toList =
        .ok ["a".toList, "'b (c'".toList, "(d e))f".toList] ∧
      ∃ spans : List Span,
        ["a".toList, "'b (c'".toList, "(d e))f".toList] =
          spans.map (fun span => span.text "a ) 'b (c' (d e))f".toList) ∧
        Apart "a ) 'b (c' (d e))f".toList spans ∧
        (∀ before c after, "a ) 'b (c' (d e))f".toList = before ++ c :: after →
          ¬ LeftOut before c → ∃! span, span ∈ spans ∧ span.Contains before.length) ∧
        (∀ before c after, "a ) 'b (c' (d e))f".toList = before ++ c :: after →
          LeftOut before c → ∀ span ∈ spans, ¬ span.Contains before.length) ∧
        ∀ before c after, "a ) 'b (c' (d e))f".toList = before ++ c :: after →
          (∃ span ∈ spans, span.stop = before.length) → Separates before c := by
  have hwords : splitWords "a ) 'b (c' (d e))f".toList =
      .ok ["a".toList, "'b (c'".toList, "(d e))f".toList] := by decide
  exact ⟨hwords, words_placed hwords⟩

/-- A closing parenthesis that begins a text is in none of its words, though it is no blank. -/
theorem stray_in_no_word :
    splitWords [')', ' ', 'b'] = .ok [['b']] ∧
      ¬ ∃ spans : List Span, [['b']] = spans.map (fun span => span.text [')', ' ', 'b']) ∧
        Apart [')', ' ', 'b'] spans ∧
        ∀ before c after, [')', ' ', 'b'] = before ++ c :: after → Text.isBlank c = false →
          ∃ span ∈ spans, span.Contains before.length := by
  refine ⟨by decide, ?_⟩
  rintro ⟨spans, htexts, -, hcovers⟩
  obtain ⟨⟨start, stop⟩, hspan, hstart, hstop⟩ := hcovers [] ')' [' ', 'b'] rfl (by decide)
  have htext : Span.text ⟨start, stop⟩ [')', ' ', 'b'] = ['b'] := by
    have hmem := List.mem_map_of_mem (f := fun span => span.text [')', ' ', 'b']) hspan
    rw [← htexts] at hmem
    exact List.mem_singleton.1 hmem
  obtain rfl : start = 0 := Nat.le_zero.1 hstart
  have hfirst : ([')', ' ', 'b'].extract 0 stop) = ')' :: [')', ' ', 'b'].extract 1 stop :=
    @extract_cons [] [' ', 'b'] ')' stop hstop
  have hhead : ')' :: [')', ' ', 'b'].extract 1 stop = ['b'] := hfirst.symm.trans htext
  exact absurd (List.cons.inj hhead).1 (by decide)

end LaunchPlan.Substitution
