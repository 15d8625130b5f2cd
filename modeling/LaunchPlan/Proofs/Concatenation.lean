import LaunchPlan.Proofs.CanonicalText
import LaunchPlan.Proofs.Reading
import LaunchPlan.Resolve

/-!
# Texts one after the other

What two texts stand for one after the other is what the first stands for and then what the second
does. The scanner cuts both at once as it cuts each, except that a literal at the end of the first
and one at the beginning of the second are one literal.
-/

namespace LaunchPlan

/-- The one list after the other. Where `merge` makes one of the last and the first, it takes the
place of both. -/
def joinAt {α : Type} (merge : α → α → Option α) : List α → List α → List α
  | [], bs => bs
  | [a], b :: bs =>
    match merge a b with
    | some c => c :: bs
    | none => a :: b :: bs
  | a :: as, bs => a :: joinAt merge as bs

section JoinAt

variable {α β : Type} {merge : α → α → Option α} {merge' : β → β → Option β}

theorem joinAt_cons_cons (a b : α) (as bs : List α) :
    joinAt merge (a :: b :: as) bs = a :: joinAt merge (b :: as) bs := by
  rw [joinAt]
  simp

theorem joinAt_singleton_of_some {a b c : α} {bs : List α} (h : merge a b = some c) :
    joinAt merge [a] (b :: bs) = c :: bs := by
  simp [joinAt, h]

theorem joinAt_singleton_of_none {a b : α} {bs : List α} (h : merge a b = none) :
    joinAt merge [a] (b :: bs) = a :: b :: bs := by
  simp [joinAt, h]

/-- Lists that are related are so when joined, if the two ways to merge agree. -/
theorem forall₂_joinAt {R : α → β → Prop}
    (hmerge : ∀ {a b x y}, R a x → R b y → Option.Rel R (merge a b) (merge' x y))
    {as bs : List α} {xs ys : List β} (h : List.Forall₂ R as xs) (k : List.Forall₂ R bs ys) :
    List.Forall₂ R (joinAt merge as bs) (joinAt merge' xs ys) := by
  induction h with
  | nil => exact k
  | @cons a x as xs hax h ih =>
    cases h with
    | cons hbx h =>
      rw [joinAt_cons_cons, joinAt_cons_cons]
      exact .cons hax ih
    | nil =>
      cases k with
      | nil => exact .cons hax .nil
      | @cons b y bs ys hby k =>
        have hrel := hmerge hax hby
        cases hab : merge a b with
        | none =>
          rw [hab] at hrel
          cases hxy : merge' x y with
          | none =>
            rw [joinAt_singleton_of_none hab, joinAt_singleton_of_none hxy]
            exact .cons hax (.cons hby k)
          | some z => rw [hxy] at hrel; cases hrel
        | some c =>
          rw [hab] at hrel
          cases hxy : merge' x y with
          | none => rw [hxy] at hrel; cases hrel
          | some z =>
            rw [hxy] at hrel
            rw [joinAt_singleton_of_some hab, joinAt_singleton_of_some hxy]
            cases hrel with
            | some hcz => exact .cons hcz k

end JoinAt

namespace Substitution

section Pieces

/-- Two literals are one. -/
def mergeLiterals : Piece → Piece → Option Piece
  | .literal cs, .literal ds => some (.literal (cs ++ ds))
  | _, _ => none

theorem joinAt_consLiteral (c : Char) (ps qs : List Piece) :
    joinAt mergeLiterals (consLiteral c ps) qs = consLiteral c (joinAt mergeLiterals ps qs) := by
  rcases ps with _ | ⟨p, _ | ⟨p', ps⟩⟩
  · rcases qs with _ | ⟨_ | _ | _, qs⟩ <;> rfl
  · rcases qs with _ | ⟨_ | _ | _, qs⟩ <;> cases p <;> rfl
  · cases p <;> simp [consLiteral, joinAt_cons_cons]

theorem joinAt_consBody (c : Char) {ps : List Piece} (hne : ps ≠ []) (qs : List Piece) :
    joinAt mergeLiterals (consBody c ps) qs = consBody c (joinAt mergeLiterals ps qs) := by
  rcases ps with _ | ⟨p, _ | ⟨p', ps⟩⟩
  · exact absurd rfl hne
  · rcases qs with _ | ⟨_ | _ | _, qs⟩ <;> cases p <;> rfl
  · cases p <;> simp [consBody, joinAt_cons_cons]

theorem joinAt_body (body : List Char) (ps qs : List Piece) :
    joinAt mergeLiterals (.body body :: ps) qs = .body body :: joinAt mergeLiterals ps qs := by
  rcases ps with _ | ⟨p, ps⟩
  · cases qs <;> rfl
  · exact joinAt_cons_cons _ _ _ _

theorem consBody_ne_nil {c : Char} {ps : List Piece} (h : ps ≠ []) : consBody c ps ≠ [] := by
  unfold consBody
  split
  · exact List.cons_ne_nil _ _
  · exact h

theorem piecesFrom_some_ne_nil (depth : Nat) (cs : List Char) :
    piecesFrom (some depth) cs ≠ [] := by
  induction cs generalizing depth with
  | nil => exact List.cons_ne_nil _ _
  | cons c cs ih =>
    rw [piecesFrom]
    split
    · split
      · exact List.cons_ne_nil _ _
      · exact consBody_ne_nil (ih _)
    · split
      · exact consBody_ne_nil (ih _)
      · exact consBody_ne_nil (ih _)

theorem pieces_ne_nil {cs : List Char} (hne : cs ≠ []) : pieces cs ≠ [] := by
  obtain ⟨c, cs, rfl⟩ := List.exists_cons_of_ne_nil hne
  unfold pieces piecesFrom
  split
  · contradiction
  · contradiction
  · exact piecesFrom_some_ne_nil 0 _
  · unfold consLiteral
    split <;> exact List.cons_ne_nil _ _
  · contradiction

theorem mem_consLiteral_of_mem {c : Char} {ps : List Piece} (h : .unclosed ∈ ps) :
    .unclosed ∈ consLiteral c ps := by
  unfold consLiteral
  split
  · simpa using h
  · exact List.mem_cons_of_mem _ h

theorem mem_consBody_of_mem {c : Char} {ps : List Piece} (h : .unclosed ∈ ps) :
    .unclosed ∈ consBody c ps := by
  unfold consBody
  split
  · simpa using h
  · exact h

theorem literal_ne_nil_of_consLiteral {c : Char} {ps : List Piece} {cs : List Char}
    (hps : ∀ ds, .literal ds ∈ ps → ds ≠ []) (h : .literal cs ∈ consLiteral c ps) : cs ≠ [] := by
  unfold consLiteral at h
  split at h
  · next ds rest =>
    rcases List.mem_cons.1 h with heq | hmem
    · rw [Piece.literal.inj heq]
      exact List.cons_ne_nil _ _
    · exact hps cs (List.mem_cons_of_mem _ hmem)
  · rcases List.mem_cons.1 h with heq | hmem
    · rw [Piece.literal.inj heq]
      exact List.cons_ne_nil _ _
    · exact hps cs hmem

theorem mem_of_mem_consBody {c : Char} {ps : List Piece} {cs : List Char}
    (h : .literal cs ∈ consBody c ps) : .literal cs ∈ ps := by
  unfold consBody at h
  split at h
  · simpa using h
  · exact h

/-- No literal is empty. -/
theorem literal_ne_nil {state : Option Nat} {cs ds : List Char}
    (h : .literal ds ∈ piecesFrom state cs) : ds ≠ [] := by
  fun_induction piecesFrom state cs generalizing ds with
  | case1 => cases h
  | case2 => simp at h
  | case3 cs ih => exact ih h
  | case4 c cs _ ih => exact literal_ne_nil_of_consLiteral (fun _ => ih) h
  | case5 cs ih => exact ih (by simpa using h)
  | case6 depth cs _ ih => exact ih (mem_of_mem_consBody h)
  | case7 depth cs _ ih => exact ih (mem_of_mem_consBody h)
  | case8 depth c cs _ _ ih => exact ih (mem_of_mem_consBody h)

theorem seam_of_cons {c : Char} {cs ds : List Char}
    (h : (c :: cs).getLast? = some '$' → ds.head? ≠ some '(') :
    cs.getLast? = some '$' → ds.head? ≠ some '(' :=
  fun hcs => h (by rw [List.getLast?_cons, hcs, Option.getD_some])

/-- A text in which every body is closed is cut apart from what follows it. -/
theorem piecesFrom_append {state : Option Nat} {cs : List Char} (ds : List Char)
    (hclosed : .unclosed ∉ piecesFrom state cs)
    (hseam : cs.getLast? = some '$' → ds.head? ≠ some '(') :
    piecesFrom state (cs ++ ds) =
      joinAt mergeLiterals (piecesFrom state cs) (piecesFrom none ds) := by
  fun_induction piecesFrom state cs with
  | case1 => rfl
  | case2 => simp at hclosed
  | case3 cs ih => exact ih hclosed (seam_of_cons (seam_of_cons hseam))
  | case4 c cs hopen ih =>
    -- The character opens no body, with what follows either.
    have hcut : piecesFrom none (c :: (cs ++ ds)) = consLiteral c (piecesFrom none (cs ++ ds)) := by
      rw [piecesFrom]
      intro rest hc hrest
      cases cs with
      | nil => exact hseam (by rw [hc]; rfl) (by rw [← List.nil_append ds, hrest]; rfl)
      | cons d cs => exact hopen cs hc (by rw [(List.cons.inj hrest).1])
    have hcs := ih (fun h => hclosed (mem_consLiteral_of_mem h)) (seam_of_cons hseam)
    rw [List.cons_append, hcut, joinAt_consLiteral, hcs]
  | case5 cs ih =>
    have hcs := ih (fun h => hclosed (List.mem_cons_of_mem _ h)) (seam_of_cons hseam)
    rw [List.cons_append, piecesFrom, if_pos rfl, if_pos rfl, joinAt_body, hcs]
  | case6 depth cs hdepth ih =>
    have hcs := ih (fun h => hclosed (mem_consBody_of_mem h)) (seam_of_cons hseam)
    rw [List.cons_append, piecesFrom, if_pos rfl, if_neg hdepth, hcs,
      joinAt_consBody _ (piecesFrom_some_ne_nil _ _)]
  | case7 depth cs hclose ih =>
    have hcs := ih (fun h => hclosed (mem_consBody_of_mem h)) (seam_of_cons hseam)
    rw [List.cons_append, piecesFrom, if_neg hclose, if_pos rfl, hcs,
      joinAt_consBody _ (piecesFrom_some_ne_nil _ _)]
  | case8 depth c cs hclose hopen ih =>
    have hcs := ih (fun h => hclosed (mem_consBody_of_mem h)) (seam_of_cons hseam)
    rw [List.cons_append, piecesFrom, if_neg hclose, if_neg hopen, hcs,
      joinAt_consBody _ (piecesFrom_some_ne_nil _ _)]

end Pieces

section Reading

/-- Two literals are one. -/
def mergeTexts : Substitution → Substitution → Option Substitution
  | text s, text t => some (text (s ++ t))
  | _, _ => none

theorem mergeTexts_of_left {e e' : Substitution} (h : e.isText = false) :
    mergeTexts e e' = none := by
  cases e <;> first | rfl | cases h

theorem mergeTexts_of_right {e e' : Substitution} (h : e'.isText = false) :
    mergeTexts e e' = none := by
  cases e' <;> cases e <;> first | rfl | cases h

theorem isText_of_readArgument {arguments : List Char} {e : Substitution}
    (h : readArgument arguments = .ok e) : e.isText = false := by
  unfold readArgument at h
  split at h
  · cases h
  · cases h
    rfl

theorem isText_of_variableOf {ws : List (List Char)} {e : Substitution}
    (h : variableOf ws = .ok e) : e.isText = false := by
  rcases ws with _ | ⟨name, _ | ⟨word, rest⟩⟩
  · cases h
  · cases h
    rfl
  · obtain ⟨default, -, hd⟩ := bind_ok_iff.1 h
    cases hd
    rfl

theorem isText_of_selectionOf {ws : List (List Char)} {e : Substitution}
    (h : selectionOf ws = .ok e) : e.isText = false := by
  rcases ws with _ | ⟨first, _ | ⟨word, rest⟩⟩
  · cases h
  · cases h
  · obtain ⟨condition, -, hc⟩ := bind_ok_iff.1 h
    obtain ⟨cases', -, hs⟩ := bind_ok_iff.1 hc
    cases hs
    rfl

/-- No call is a literal. -/
theorem isText_of_readBody {body : List Char} {e : Substitution}
    (h : readBody body nestedChars = .ok e) : e.isText = false := by
  rw [readBody_chars] at h
  unfold readKind at h
  rw [readEnv_chars, readOperands_chars, readSelect_chars] at h
  dsimp only at h
  split at h
  · cases h
  · split at h
    · cases h
    · exact isText_of_readArgument h
  · split at h
    · cases h
    · obtain ⟨ws, -, hws⟩ := bind_ok_iff.1 h
      exact isText_of_variableOf hws
  · split at h
    · cases h
    · obtain ⟨parts, -, rfl⟩ := map_ok_iff.1 h
      rfl
  · split at h
    · cases h
    · obtain ⟨parts, -, rfl⟩ := map_ok_iff.1 h
      rfl
  · split at h
    · cases h
    · obtain ⟨parts, -, rfl⟩ := map_ok_iff.1 h
      rfl
  · split at h
    · cases h
    · obtain ⟨ws, -, hws⟩ := bind_ok_iff.1 h
      exact isText_of_selectionOf hws
  · cases h

/-- Literals are read as literals, and nothing else is. -/
theorem rel_merge {p q : Piece} {d e : Substitution} (hp : ReadAs p d) (hq : ReadAs q e) :
    Option.Rel ReadAs (mergeLiterals p q) (mergeTexts d e) := by
  cases p with
  | literal cs =>
    cases q with
    | literal ds =>
      cases hp []
      cases hq []
      exact .some fun _ => by rw [readPiece, String.ofList_append]
    | body b =>
      rw [mergeTexts_of_right (isText_of_readBody (hq []))]
      exact .none
    | unclosed => cases hq []
  | body b =>
    rw [mergeTexts_of_left (isText_of_readBody (hp []))]
    exact .none
  | unclosed => cases hp []

/-- The expressions of one text after those of another. The empty text is a literal without
characters, which is left out. -/
def joinRead : List Substitution → List Substitution → List Substitution
  | [text ""], ds => ds
  | cs, [text ""] => cs
  | cs, ds => joinAt mergeTexts cs ds

theorem readAs_ne_unclosed {p : Piece} {e : Substitution} (h : ReadAs p e) : p ≠ .unclosed := by
  rintro rfl
  cases h []

/-- Only the empty text is read as the empty literal. -/
theorem ne_empty_of_readChars {cs : List Char} {es : List Substitution} (hne : cs ≠ [])
    (h : readChars cs = .ok es) : es ≠ [text ""] := by
  rintro rfl
  obtain ⟨p, ps, hp, -, hps⟩ := List.forall₂_cons_right_iff.1 ((readChars_ok_iff hne).1 h)
  have hmem : p ∈ pieces cs := by
    rw [hps]
    exact List.mem_cons_self ..
  cases p with
  | literal ds =>
    have hds : String.ofList ds = "" := text.inj (Except.ok.inj (hp []))
    exact literal_ne_nil hmem (String.ofList_eq_empty_iff.1 hds)
  | body b => exact absurd (isText_of_readBody (hp [])) (by simp [isText])
  | unclosed => cases hp []

theorem readChars_append {cs ds : List Char} {es fs : List Substitution} (hcs : cs ≠ [])
    (hds : ds ≠ []) (h : readChars cs = .ok es) (k : readChars ds = .ok fs)
    (hseam : cs.getLast? = some '$' → ds.head? ≠ some '(') :
    readChars (cs ++ ds) = .ok (joinAt mergeTexts es fs) := by
  rw [readChars_ok_iff hcs] at h
  rw [readChars_ok_iff hds] at k
  have hclosed : ∀ p ∈ pieces cs, p ≠ .unclosed :=
    ((List.forall₂_and_left _ _).1 (h.imp fun p e hp => ⟨readAs_ne_unclosed hp, hp⟩)).1
  have hpieces : pieces (cs ++ ds) = joinAt mergeLiterals (pieces cs) (pieces ds) :=
    piecesFrom_append ds (fun hmem => hclosed _ hmem rfl) hseam
  rw [readChars_ok_iff (List.append_ne_nil_of_left_ne_nil hcs ds), hpieces]
  exact forall₂_joinAt rel_merge h k

end Reading

section Resolving

variable {σ : Type} (host : Host σ) (env : Environment) (arguments : ArgumentTable)

/-- The texts of the one list and then of the other. -/
def resolveBoth (cs ds : List Substitution) : Resolving σ String := do
  let first ← resolveList host env arguments cs
  let second ← resolveList host env arguments ds
  return first ++ second

theorem resolveBoth_nil (ds : List Substitution) :
    resolveBoth host env arguments [] ds = resolveList host env arguments ds := by
  have hempty : HAppend.hAppend "" = (id : String → String) :=
    funext fun _ => String.empty_append
  simp [resolveBoth, resolveList, hempty]

theorem resolveBoth_empty (ds : List Substitution) :
    resolveBoth host env arguments [text ""] ds = resolveList host env arguments ds := by
  have hempty : HAppend.hAppend "" = (id : String → String) :=
    funext fun _ => String.empty_append
  simp [resolveBoth, resolveList, resolve, hempty]

theorem resolveBoth_empty_right (cs : List Substitution) :
    resolveBoth host env arguments cs [text ""] = resolveList host env arguments cs := by
  simp [resolveBoth, resolveList, resolve]

theorem append_append_eq (s t : String) :
    HAppend.hAppend (s ++ t) = fun u : String => s ++ (t ++ u) :=
  funext fun _ => String.append_assoc

theorem resolveBoth_cons (c : Substitution) (cs ds : List Substitution) :
    resolveBoth host env arguments (c :: cs) ds = do
      let first ← resolve host env arguments c
      let rest ← resolveBoth host env arguments cs ds
      return first ++ rest := by
  simp [resolveBoth, resolveList, append_append_eq]

theorem resolveList_merged {d e c : Substitution} (h : mergeTexts d e = some c)
    (ds : List Substitution) :
    resolveList host env arguments (c :: ds) = resolveList host env arguments (d :: e :: ds) := by
  unfold mergeTexts at h
  split at h
  · cases h
    simp [resolveList, resolve, append_append_eq]
  · cases h

theorem resolveList_joinAt (cs ds : List Substitution) :
    resolveList host env arguments (joinAt mergeTexts cs ds) =
      resolveBoth host env arguments cs ds := by
  induction cs with
  | nil => exact (resolveBoth_nil host env arguments ds).symm
  | cons c cs ih =>
    cases cs with
    | cons c' cs => rw [joinAt_cons_cons, resolveBoth_cons, ← ih, resolveList]
    | nil =>
      have happend : resolveList host env arguments (c :: ds) =
          resolveBoth host env arguments [c] ds := by
        rw [resolveBoth_cons, resolveBoth_nil, resolveList]
      cases ds with
      | nil => exact happend
      | cons d ds =>
        cases hmerge : mergeTexts c d with
        | none => rw [joinAt_singleton_of_none hmerge, happend]
        | some e => rw [joinAt_singleton_of_some hmerge, resolveList_merged _ _ _ hmerge, happend]

end Resolving

/-- A text after another one is read as what the one and then the other stand for, and resolving
it is resolving first the one and then the other, whatever commands, variables and arguments there
are. -/
theorem read_append {s t : String} {cs ds : List Substitution} (hs : read s = .ok cs)
    (ht : read t = .ok ds) (hseam : s.toList.getLast? = some '$' → t.toList.head? ≠ some '(') :
    read (s ++ t) = .ok (joinRead cs ds) ∧
      ∀ (σ : Type) (host : Host σ) (env : Environment) (arguments : ArgumentTable),
        resolveList host env arguments (joinRead cs ds) =
          resolveBoth host env arguments cs ds := by
  by_cases hse : s = ""
  · subst hse
    cases hs
    refine ⟨by rw [String.empty_append, ht, joinRead], fun σ host env arguments => ?_⟩
    rw [joinRead, resolveBoth_empty]
  · have hsl : s.toList ≠ [] := fun h => hse (String.toList_eq_nil_iff.1 h)
    have hcs : cs ≠ [text ""] := ne_empty_of_readChars hsl hs
    by_cases hte : t = ""
    · subst hte
      cases ht
      have hjoin : joinRead cs [text ""] = cs := by
        rw [joinRead]
        exact fun h => hcs h
      refine ⟨by rw [String.append_empty, hs, hjoin], fun σ host env arguments => ?_⟩
      rw [hjoin, resolveBoth_empty_right]
    · have htl : t.toList ≠ [] := fun h => hte (String.toList_eq_nil_iff.1 h)
      have hds : ds ≠ [text ""] := ne_empty_of_readChars htl ht
      have hjoin : joinRead cs ds = joinAt mergeTexts cs ds := by
        rw [joinRead]
        · exact fun h => hcs h
        · exact fun h => hds h
      rw [hjoin]
      refine ⟨?_, fun σ host env arguments => resolveList_joinAt host env arguments cs ds⟩
      rw [read, String.toList_append]
      exact readChars_append hsl htl hs ht hseam

/-- A dollar sign that ends the one text opens nothing. -/
theorem price_append :
    read "$(var amount)$" = .ok [.argument "amount", .text "$"] ∧
      read "5 $(command cat rates)" = .ok [.text "5 ", .command [.text "cat rates"]] ∧
      ("$(var amount)$".toList.getLast? = some '$' →
        "5 $(command cat rates)".toList.head? ≠ some '(') ∧
      read ("$(var amount)$" ++ "5 $(command cat rates)") =
        .ok [.argument "amount", .text "$5 ", .command [.text "cat rates"]] ∧
      ∀ (σ : Type) (host : Host σ) (env : Environment) (arguments : ArgumentTable),
        resolveList host env arguments
            [.argument "amount", .text "$5 ", .command [.text "cat rates"]] =
          resolveBoth host env arguments [.argument "amount", .text "$"]
            [.text "5 ", .command [.text "cat rates"]] := by
  have hs : read "$(var amount)$" = .ok [.argument "amount", .text "$"] := rfl
  have ht : read "5 $(command cat rates)" = .ok [.text "5 ", .command [.text "cat rates"]] := rfl
  have hseam : "$(var amount)$".toList.getLast? = some '$' →
      "5 $(command cat rates)".toList.head? ≠ some '(' := by decide
  obtain ⟨hread, hresolve⟩ := read_append hs ht hseam
  exact ⟨hs, ht, hseam, hread, hresolve⟩

end Substitution

end LaunchPlan
