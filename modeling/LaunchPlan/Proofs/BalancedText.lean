import LaunchPlan.Substitution.Reader
import Mathlib.Data.List.DropRight

/-!
# Balanced text

Text without quotes whose parentheses match is taken as a whole: by the scanner that looks for the
end of a body and by the one that splits words. Neither lets it change what becomes of the rest.
-/

namespace LaunchPlan.Substitution

def isDelimiter (c : Char) : Bool :=
  c = '\'' || c = '"' || c = '(' || c = ')'

theorem not_delimiter_of_isBlank {c : Char} (h : Text.isBlank c = true) :
    isDelimiter c = false ∧ c ≠ '$' := by
  constructor
  · rw [Bool.eq_false_iff]
    intro hc
    simp only [isDelimiter, Bool.or_eq_true, decide_eq_true_eq] at hc
    rcases hc with ((rfl | rfl) | rfl) | rfl <;> exact absurd h (by decide)
  · rintro rfl
    exact absurd h (by decide)

/-- Text without quotes whose parentheses match. Its characters outside of parentheses are in
`outer`. -/
inductive Balanced : (outer : Char → Prop) → List Char → Prop
  | nil {outer : Char → Prop} : Balanced outer []
  | char {outer : Char → Prop} {c : Char} {cs : List Char} : isDelimiter c = false → outer c →
      Balanced outer cs → Balanced outer (c :: cs)
  | group {outer : Char → Prop} {inner cs : List Char} : Balanced (fun _ => True) inner →
      Balanced outer cs → Balanced outer ('(' :: (inner ++ ')' :: cs))

/-- A word is balanced text without blanks outside of parentheses. -/
structure Word (cs : List Char) : Prop where
  balanced : Balanced (fun c => Text.isBlank c = false) cs
  nonempty : cs ≠ []

namespace Balanced

variable {outer : Char → Prop} {cs ds : List Char}

theorem append (h : Balanced outer cs) (k : Balanced outer ds) : Balanced outer (cs ++ ds) := by
  induction h with
  | nil => exact k
  | char hc ho _ ih => exact .char hc ho (ih k)
  | @group _ inner cs hi _ _ ih =>
    rw [List.cons_append, List.append_assoc, List.cons_append]
    exact .group hi (ih k)

theorem mono {other : Char → Prop} (h : Balanced outer cs) (ho : ∀ c, outer c → other c) :
    Balanced other cs := by
  induction h with
  | nil => exact .nil
  | char hc hc' _ ih => exact .char hc (ho _ hc') (ih ho)
  | group hi _ _ ih => exact .group hi (ih ho)

/-- What is balanced may stand in parentheses. -/
theorem inside (h : Balanced outer cs) : Balanced (fun _ => True) cs :=
  h.mono fun _ _ => trivial

theorem of_forall (h : ∀ c ∈ cs, isDelimiter c = false ∧ outer c) : Balanced outer cs := by
  induction cs with
  | nil => exact .nil
  | cons c cs ih =>
    obtain ⟨hc, hcs⟩ := List.forall_mem_cons.1 h
    exact .char hc.1 hc.2 (ih hcs)

end Balanced

section Words

open WordState

theorem WordState.step_char {s : WordState} {c : Char} (hs : s.quote = none)
    (hc : isDelimiter c = false) (hb : Text.isBlank c = false ∨ s.depth ≠ 0) :
    s.step c = ({ s with inWord := true }, .keep) := by
  simp only [isDelimiter, Bool.or_eq_false_iff, decide_eq_false_iff_not] at hc
  have hblank : ¬ (Text.isBlank c && decide (s.depth = 0)) = true := by
    rcases hb with hb | hb <;> simp [hb]
  simp [step, hs, hc, hblank]

theorem WordState.step_open (d : Nat) (inWord : Bool) :
    step { depth := d, inWord } '(' = ({ depth := d + 1, inWord := true }, .keep) := rfl

theorem WordState.step_close (d : Nat) :
    step { depth := d + 1, inWord := true } ')' = ({ depth := d, inWord := true }, .keep) := rfl

/-- In state `s` the whole text goes on with the open word, or begins one. -/
def Kept (s : WordState) (cs : List Char) : Prop :=
  ∀ rest, wordsFrom s (cs ++ rest) =
    (wordsFrom { s with inWord := true } rest).map (cs.foldr consWord)

theorem Kept.append {s : WordState} {cs ds : List Char} (h : Kept s cs)
    (k : Kept { s with inWord := true } ds) : Kept s (cs ++ ds) := by
  intro rest
  rw [List.append_assoc, h, k, Option.map_map]
  refine congrFun (congrArg Option.map (funext fun ws => ?_)) _
  simp

/-- Inside a word, balanced text goes on with it. -/
theorem Balanced.kept {outer : Char → Prop} {cs : List Char} (h : Balanced outer cs) {d : Nat}
    (hd : (∀ c, outer c → Text.isBlank c = false) ∨ d ≠ 0) :
    Kept { depth := d, inWord := true } cs := by
  intro rest
  induction h generalizing d rest with
  | nil => simp
  | @char outer c cs hc ho _ ih =>
    have hstep := step_char (s := { depth := d, inWord := true }) rfl hc
      (hd.imp (fun hb => hb c ho) id)
    rw [List.cons_append, wordsFrom, hstep]
    simp only [ih hd, Option.map_map]
    rfl
  | @group outer inner cs _ _ ihi ih =>
    rw [List.cons_append, List.append_assoc, List.cons_append, wordsFrom, step_open]
    simp only
    rw [ihi (.inr (Nat.succ_ne_zero d)), wordsFrom, step_close]
    simp only [ih hd, Option.map_map]
    refine congrFun (congrArg Option.map (funext fun ws => ?_)) _
    simp

theorem foldr_consWord (cs word : List Char) (ws : List (List Char)) :
    cs.foldr consWord (word :: ws) = (cs ++ word) :: ws := by
  induction cs with
  | nil => rfl
  | cons c cs ih => rw [List.foldr_cons, ih, consWord, List.cons_append]

/-- A word that begins goes on like one that is open. -/
theorem Word.kept {cs : List Char} (h : Word cs) : Kept {} cs := by
  intro rest
  rw [← h.balanced.kept (d := 0) (.inl fun _ => id)]
  obtain ⟨hcs, hne⟩ := h
  cases hcs with
  | nil => exact absurd rfl hne
  | char hc hb _ =>
    rw [List.cons_append, wordsFrom, wordsFrom, step_char rfl hc (.inl hb),
      step_char rfl hc (.inl hb)]
  | group _ _ => rfl

@[simp] theorem joinWords_singleton (w : List Char) : joinWords [w] = w := by
  simp [joinWords]

theorem joinWords_cons_cons (w v : List Char) (ws : List (List Char)) :
    joinWords (w :: v :: ws) = w ++ ' ' :: joinWords (v :: ws) := by
  simp [joinWords, List.intercalate]

/-- Words joined by blanks are split where they were joined. -/
theorem words_joinWords {ws : List (List Char)} (h : ∀ w ∈ ws, Kept {} w) :
    words (joinWords ws) = some ws := by
  induction ws with
  | nil => rfl
  | cons w ws ih =>
    obtain ⟨hw, hws⟩ := List.forall_mem_cons.1 h
    have hopen : ∀ vs, w.foldr consWord ([] :: vs) = w :: vs := fun vs => by
      rw [foldr_consWord, List.append_nil]
    cases ws with
    | nil =>
      have hend : wordsFrom {} (w ++ []) = some [w] := by
        rw [hw]
        exact congrArg some (hopen [])
      simpa [words] using hend
    | cons v ws =>
      have hblank : wordsFrom { inWord := true } (' ' :: joinWords (v :: ws)) =
          (words (joinWords (v :: ws))).map ([] :: ·) := rfl
      rw [words, joinWords_cons_cons, hw, hblank, ih hws]
      exact congrArg some (hopen _)

end Words

section Pieces

theorem foldr_consBody (cs body : List Char) (ps : List Piece) :
    cs.foldr consBody (.body body :: ps) = .body (cs ++ body) :: ps := by
  induction cs with
  | nil => rfl
  | cons c cs ih => rw [List.foldr_cons, ih, consBody, List.cons_append]

/-- The parentheses that are open after a text, where `depth` are open before it; none when it
closes one more. Quotes play no part. -/
def depthAfter (depth : Nat) : List Char → Option Nat
  | [] => some depth
  | c :: cs =>
    if c = ')' then if depth = 0 then none else depthAfter (depth - 1) cs
    else if c = '(' then depthAfter (depth + 1) cs
    else depthAfter depth cs

theorem depthAfter_append (depth : Nat) (cs ds : List Char) :
    depthAfter depth (cs ++ ds) = (depthAfter depth cs).bind fun inner => depthAfter inner ds := by
  induction cs generalizing depth with
  | nil => rfl
  | cons c cs ih =>
    rw [List.cons_append, depthAfter, depthAfter, ih, ih, ih]
    split
    · split <;> rfl
    · split <;> rfl

theorem depthAfter_of_ne {cs : List Char} (h : ∀ c ∈ cs, c ≠ '(' ∧ c ≠ ')') (depth : Nat) :
    depthAfter depth cs = some depth := by
  induction cs with
  | nil => rfl
  | cons c cs ih =>
    obtain ⟨⟨hopen, hclose⟩, hcs⟩ := List.forall_mem_cons.1 h
    rw [depthAfter, if_neg hclose, if_neg hopen, ih hcs]

theorem Balanced.depthAfter {outer : Char → Prop} {cs : List Char} (h : Balanced outer cs)
    (depth : Nat) : depthAfter depth cs = some depth := by
  induction h generalizing depth with
  | nil => rfl
  | char hc _ _ ih =>
    simp only [isDelimiter, Bool.or_eq_false_iff, decide_eq_false_iff_not] at hc
    rw [Substitution.depthAfter, if_neg hc.2, if_neg hc.1.2, ih]
  | group _ _ ihi ih =>
    rw [Substitution.depthAfter, if_neg (by decide), if_pos rfl, depthAfter_append, ihi,
      Option.bind_some, Substitution.depthAfter, if_pos rfl, if_neg (Nat.succ_ne_zero depth),
      Nat.add_sub_cancel, ih]

/-- A text that closes one parenthesis too many does so at some place. -/
theorem exists_of_depthAfter_eq_none {depth : Nat} {cs : List Char}
    (h : depthAfter depth cs = none) :
    ∃ before after, cs = before ++ ')' :: after ∧ depthAfter depth before = some 0 := by
  induction cs generalizing depth with
  | nil => cases h
  | cons c cs ih =>
    -- What holds of the text after the character holds of the text with it.
    have hcons : ∀ inner, depthAfter inner cs = none →
        (∀ ds, depthAfter depth (c :: ds) = depthAfter inner ds) →
        ∃ before after, c :: cs = before ++ ')' :: after ∧ depthAfter depth before = some 0 := by
      intro inner hinner hstep
      obtain ⟨before, after, rfl, hbefore⟩ := ih hinner
      exact ⟨c :: before, after, rfl, by rw [hstep, hbefore]⟩
    rw [depthAfter] at h
    split at h
    · next hclose =>
      split at h
      · next hdepth =>
        subst hclose hdepth
        exact ⟨[], cs, rfl, rfl⟩
      · next hdepth => exact hcons _ h fun ds => by rw [depthAfter, if_pos hclose, if_neg hdepth]
    · next hclose =>
      split at h
      · next hopen => exact hcons _ h fun ds => by rw [depthAfter, if_neg hclose, if_pos hopen]
      · next hopen => exact hcons _ h fun ds => by rw [depthAfter, if_neg hclose, if_neg hopen]

/-- A body goes on as long as it is not closed. -/
theorem piecesFrom_some {depth inner : Nat} {cs : List Char} (h : depthAfter depth cs = some inner)
    (rest : List Char) :
    piecesFrom (some depth) (cs ++ rest) =
      cs.foldr consBody (piecesFrom (some inner) rest) := by
  induction cs generalizing depth with
  | nil =>
    cases h
    rfl
  | cons c cs ih =>
    rw [depthAfter] at h
    rw [List.cons_append, piecesFrom, List.foldr_cons]
    split at h
    · next hclose =>
      split at h
      · cases h
      · next hdepth => rw [if_pos hclose, if_neg hdepth, ih h]
    · next hclose =>
      split at h
      · next hopen => rw [if_neg hclose, if_pos hopen, ih h]
      · next hopen => rw [if_neg hclose, if_neg hopen, ih h]

/-- A body ends where it is closed. -/
theorem piecesFrom_body {body : List Char} (h : depthAfter 0 body = some 0) (rest : List Char) :
    piecesFrom none ('$' :: '(' :: (body ++ ')' :: rest)) = .body body :: piecesFrom none rest := by
  rw [piecesFrom, piecesFrom_some h, piecesFrom, if_pos rfl, if_pos rfl, foldr_consBody,
    List.append_nil]

/-- A body that opens a parenthesis too many does not end. -/
theorem piecesFrom_unclosed {body : List Char} {depth : Nat}
    (h : depthAfter 0 body = some (depth + 1)) :
    piecesFrom none ('$' :: '(' :: (body ++ [')'])) = [.unclosed] := by
  have hend : piecesFrom (some (depth + 1)) [')'] = [.unclosed] := rfl
  rw [piecesFrom, piecesFrom_some h, hend]
  clear h hend
  induction body with
  | nil => rfl
  | cons c body ih =>
    rw [List.foldr_cons, ih]
    rfl

theorem piecesFrom_char {c : Char} (hc : c ≠ '$') (rest : List Char) :
    piecesFrom none (c :: rest) = consLiteral c (piecesFrom none rest) := by
  rw [piecesFrom]
  exact fun cs h => absurd h hc

theorem consLiteral_of_not_literal (c : Char) {ps : List Piece}
    (hps : ∀ cs, ps.head? ≠ some (.literal cs)) : consLiteral c ps = .literal [c] :: ps := by
  cases ps with
  | nil => rfl
  | cons piece ps =>
    cases piece with
    | literal cs => exact absurd rfl (hps cs)
    | body cs => rfl
    | unclosed => rfl

/-- A literal ends where a body begins. -/
theorem piecesFrom_literal {cs : List Char} (hcs : ∀ c ∈ cs, c ≠ '$') (hne : cs ≠ [])
    {rest : List Char} (hrest : ∀ ds, (piecesFrom none rest).head? ≠ some (.literal ds)) :
    piecesFrom none (cs ++ rest) = .literal cs :: piecesFrom none rest := by
  induction cs with
  | nil => exact absurd rfl hne
  | cons c cs ih =>
    obtain ⟨hc, hcs⟩ := List.forall_mem_cons.1 hcs
    rw [List.cons_append, piecesFrom_char hc]
    cases cs with
    | nil => exact consLiteral_of_not_literal c hrest
    | cons d cs => rw [ih hcs (List.cons_ne_nil d cs), consLiteral]

end Pieces

section Trim

/-- Text that neither begins nor ends with a blank. -/
structure Trimmed (cs : List Char) : Prop where
  head : ∀ c ∈ cs.head?, Text.isBlank c = false
  last : ∀ c ∈ cs.getLast?, Text.isBlank c = false

theorem trimStart_eq {cs : List Char} (h : ∀ c ∈ cs.head?, Text.isBlank c = false) :
    Text.trimStart cs = cs := by
  cases cs with
  | nil => rfl
  | cons c cs => rw [Text.trimStart, List.dropWhile_cons, h c rfl]; rfl

theorem trimEnd_eq_rdropWhile (cs : List Char) :
    Text.trimEnd cs = cs.rdropWhile Text.isBlank :=
  rfl

theorem trimEnd_trimEnd (cs : List Char) : Text.trimEnd (Text.trimEnd cs) = Text.trimEnd cs :=
  List.rdropWhile_idempotent _ cs

/-- Blanks are cut at the end no further than up to a character that is none. -/
theorem trimEnd_append_cons {c : Char} (hc : Text.isBlank c = false) (before after : List Char) :
    Text.trimEnd (before ++ c :: after) = before ++ c :: Text.trimEnd after := by
  have hreverse : (before ++ c :: after).reverse = after.reverse ++ c :: before.reverse := by simp
  rw [Text.trimEnd, Text.trimEnd, hreverse, List.dropWhile_append]
  split
  · next hblank =>
    rw [List.isEmpty_iff.1 hblank, List.dropWhile_cons, hc]
    simp
  · simp

theorem Trimmed.trimEnd_eq {cs : List Char} (h : Trimmed cs) : Text.trimEnd cs = cs := by
  rw [trimEnd_eq_rdropWhile, List.rdropWhile_eq_self_iff]
  intro hne
  rw [h.last _ (List.getLast_mem_getLast? hne)]
  exact Bool.false_ne_true

theorem Trimmed.trim_eq {cs : List Char} (h : Trimmed cs) : Text.trim cs = cs := by
  rw [Text.trim, trimStart_eq h.head, h.trimEnd_eq]

theorem last_not_blank {outer : Char → Prop} {cs : List Char} (h : Balanced outer cs)
    (ho : ∀ c, outer c → Text.isBlank c = false) {c : Char} (hc : c ∈ cs.getLast?) :
    Text.isBlank c = false := by
  induction h with
  | nil => cases hc
  | @char _ d cs _ hd _ ih =>
    rw [List.getLast?_cons] at hc
    cases hl : cs.getLast? with
    | none =>
      obtain rfl : d = c := by simpa [hl] using hc
      exact ho d hd
    | some e =>
      obtain rfl : e = c := by simpa [hl] using hc
      exact ih ho hl
  | @group _ inner cs _ _ _ ih =>
    rw [List.getLast?_cons, List.getLast?_append, List.getLast?_cons] at hc
    cases hl : cs.getLast? with
    | none =>
      obtain rfl : ')' = c := by simpa [hl] using hc
      decide
    | some e =>
      obtain rfl : e = c := by simpa [hl] using hc
      exact ih ho hl

theorem Word.trimmed {cs : List Char} (h : Word cs) : Trimmed cs := by
  obtain ⟨h, -⟩ := h
  constructor
  · cases h with
    | nil => simp
    | char _ hb _ => simpa using hb
    | group _ _ => simp; decide
  · exact fun c hc => last_not_blank h (fun _ => id) hc

/-- Text that is one word as it stands. -/
structure WholeWord (cs : List Char) : Prop where
  kept : Kept {} cs
  trimmed : Trimmed cs
  nonempty : cs ≠ []

theorem Word.whole {cs : List Char} (h : Word cs) : WholeWord cs :=
  ⟨h.kept, h.trimmed, h.nonempty⟩

theorem joinWords_trimmed {ws : List (List Char)} (hne : ws ≠ []) (h : ∀ w ∈ ws, WholeWord w) :
    Trimmed (joinWords ws) ∧ joinWords ws ≠ [] := by
  induction ws with
  | nil => exact absurd rfl hne
  | cons w ws ih =>
    obtain ⟨hw, hws⟩ := List.forall_mem_cons.1 h
    cases ws with
    | nil => simpa using ⟨hw.trimmed, hw.nonempty⟩
    | cons v ws =>
      obtain ⟨htrim, hrest⟩ := ih (List.cons_ne_nil v ws) hws
      obtain ⟨d, w, rfl⟩ := List.exists_cons_of_ne_nil hw.nonempty
      rw [joinWords_cons_cons]
      refine ⟨⟨fun c hc => hw.trimmed.head c hc, fun c hc => htrim.last c ?_⟩, by simp⟩
      rwa [List.getLast?_append, List.getLast?_cons_of_ne_nil hrest,
        List.getLast?_eq_some_getLast hrest, Option.some_or,
        ← List.getLast?_eq_some_getLast hrest] at hc

/-- Text without quotes is not unquoted. -/
theorem unquote_eq {outer : Char → Prop} {cs : List Char} (h : Balanced outer cs)
    (ht : Trimmed cs) : unquote cs = cs := by
  rw [unquote, ht.trim_eq]
  cases h with
  | nil => rfl
  | char hc _ _ =>
    simp only [isDelimiter, Bool.or_eq_false_iff, decide_eq_false_iff_not] at hc
    simp [hc]
  | group _ _ => simp

theorem cutAtBlank_append {kind rest : List Char} (h : ∀ c ∈ kind, Text.isBlank c = false) :
    Text.cutAtBlank (kind ++ ' ' :: rest) = some (kind, rest) := by
  induction kind with
  | nil => rfl
  | cons c kind ih =>
    obtain ⟨hc, hkind⟩ := List.forall_mem_cons.1 h
    simp [Text.cutAtBlank, hc, ih hkind]

/-- A body is cut after its kind, and blanks at its end are left out. -/
theorem kindAndArguments_trimEnd {kind arguments : List Char}
    (hkind : ∀ c ∈ kind, Text.isBlank c = false) (hne : kind ≠ [])
    (hhead : ∀ c ∈ arguments.head?, Text.isBlank c = false) (harguments : arguments ≠ []) :
    kindAndArguments (kind ++ ' ' :: arguments) = (kind, Text.trimEnd arguments) := by
  obtain ⟨c, rest, rfl⟩ := List.exists_cons_of_ne_nil harguments
  have hc : Text.isBlank c = false := hhead c rfl
  have hend : Text.trimEnd (c :: rest) = c :: Text.trimEnd rest := trimEnd_append_cons hc [] rest
  have hstart : Text.trimStart (kind ++ ' ' :: c :: rest) = kind ++ ' ' :: c :: rest := by
    obtain ⟨d, kind, rfl⟩ := List.exists_cons_of_ne_nil hne
    exact trimStart_eq (by simpa using hkind d (List.mem_cons_self ..))
  have htrim : Text.trim (kind ++ ' ' :: c :: rest) = kind ++ ' ' :: c :: Text.trimEnd rest := by
    rw [Text.trim, hstart, List.append_cons, trimEnd_append_cons hc, ← List.append_cons]
  have hrest : Text.trim (c :: Text.trimEnd rest) = c :: Text.trimEnd rest := by
    rw [Text.trim, trimStart_eq (by simpa using hc), ← hend, trimEnd_trimEnd]
  rw [kindAndArguments, htrim, cutAtBlank_append hkind, hend]
  exact congrArg (kind, ·) hrest

theorem kindAndArguments_eq {kind arguments : List Char}
    (hkind : ∀ c ∈ kind, Text.isBlank c = false) (hne : kind ≠ []) (ht : Trimmed arguments)
    (harguments : arguments ≠ []) :
    kindAndArguments (kind ++ ' ' :: arguments) = (kind, arguments) := by
  rw [kindAndArguments_trimEnd hkind hne ht.head harguments, ht.trimEnd_eq]

/-- A case is cut after its key. -/
theorem cutCase_eq {key value : List Char} (h : ∀ c ∈ key, isDelimiter c = false ∧ c ≠ '=') :
    cutCase 0 (key ++ '=' :: value) = some (key, value) := by
  induction key with
  | nil => rfl
  | cons c key ih =>
    obtain ⟨⟨hc, heq⟩, hkey⟩ := List.forall_mem_cons.1 h
    simp only [isDelimiter, Bool.or_eq_false_iff, decide_eq_false_iff_not] at hc
    simp [cutCase, hc, heq, ih hkey]

end Trim

theorem mapM_attach_ok {ε α β γ : Type} {xs : List α} {ys : List β} {k : β → α} {g : β → γ}
    (hxs : xs = ys.map k) {f : { x // x ∈ xs } → Except ε γ}
    (h : ∀ y ∈ ys, ∀ hy : k y ∈ xs, f ⟨k y, hy⟩ = .ok (g y)) :
    xs.attach.mapM f = .ok (ys.map g) := by
  subst hxs
  induction ys with
  | nil => rfl
  | cons y ys ih =>
    have hrest := ih (f := fun x => f ⟨x.1, List.mem_cons_of_mem _ x.2⟩)
      fun z hz _ => h z (List.mem_cons_of_mem _ hz) _
    change List.mapM f (k y :: ys.map k).attach = _
    rw [List.attach_cons, List.mapM_cons, List.mapM_map, h y (List.mem_cons_self ..)]
    exact congrArg (fun r : Except ε (List γ) => r >>= fun zs => pure (g y :: zs)) hrest

end LaunchPlan.Substitution
