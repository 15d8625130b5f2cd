import LaunchPlan.Proofs.BalancedText
import Mathlib.Data.String.Basic

/-!
# Slices of a text

A scanner walks through a text, counts places in bytes, and cuts the text at them. A cut fails
unless at both places a character begins or the text ends, and the second place does not come before
the first. No cut fails that the scanners of an expression make, and what they cut out are the pieces
of the text, its words and its cases.
-/

namespace LaunchPlan

open String (utf8Len)

namespace Text

/-- At the place a character of the text begins, or the text ends. -/
def IsBoundary (cs : List Char) (place : Nat) : Prop :=
  String.Pos.Raw.IsValid (String.ofList cs) ⟨place⟩

instance (cs : List Char) (place : Nat) : Decidable (IsBoundary cs place) :=
  inferInstanceAs (Decidable (String.Pos.Raw.IsValid _ _))

/-- The characters of a text from one place to another. -/
def slice? (cs : List Char) (start stop : Nat) : Option (List Char) :=
  if IsBoundary cs start ∧ IsBoundary cs stop ∧ start ≤ stop then
    some (String.Pos.Raw.extract (String.ofList cs) ⟨start⟩ ⟨stop⟩).toList
  else none

example : slice? ['$', 'é', '='] 1 3 = some ['é'] ∧ slice? ['$', 'é', '='] 1 2 = none := by decide

theorem isBoundary_append (before after : List Char) :
    IsBoundary (before ++ after) (utf8Len before) := by
  refine String.Pos.Raw.isValid_iff_exists_append.mpr
    ⟨String.ofList before, String.ofList after, String.ofList_append, ?_⟩
  exact (String.rawEndPos_ofList before).symm

theorem slice?_append (before piece after : List Char) :
    slice? (before ++ piece ++ after) (utf8Len before) (utf8Len before + utf8Len piece) =
      some piece := by
  have hstart : IsBoundary (before ++ piece ++ after) (utf8Len before) := by
    rw [List.append_assoc]
    exact isBoundary_append before _
  have hstop : IsBoundary (before ++ piece ++ after) (utf8Len before + utf8Len piece) := by
    rw [← String.utf8Len_append]
    exact isBoundary_append _ after
  rw [slice?, if_pos ⟨hstart, hstop, Nat.le_add_right _ _⟩, String.extract_of_valid,
    String.toList_ofList]

end Text

namespace Substitution

/-- Why the reading of a text ends without expressions. -/
inductive Halt
  | malformed (why : Malformed)
  /-- A cut was not possible. -/
  | badCut
  /-- The text inside of a `$(...)` is not shorter than it. -/
  | notShorter
  /-- There is no room for a text inside of a text. -/
  | tooDeep

/-- What is read, where reading could also end for other reasons. -/
def checked {α : Type} (x : Except Malformed α) : Except Halt α :=
  x.mapError .malformed

def cut (text : List Char) (start stop : Nat) : Except Halt (List Char) :=
  match Text.slice? text start stop with
  | some piece => .ok piece
  | none => .error .badCut

variable {text before piece after : List Char} {start stop place : Nat}

theorem cut_eq (htext : text = before ++ piece ++ after) (hstart : start = utf8Len before)
    (hstop : stop = utf8Len before + utf8Len piece) : cut text start stop = .ok piece := by
  rw [cut, htext, hstart, hstop, Text.slice?_append]

/-! ## Words -/

/-- The words of what is left of the arguments from a place on. The open word, if there is one,
starts at `start`. -/
def splitFrom (arguments : List Char) (s : WordState) (start place : Nat) :
    List Char → Except Halt (List (List Char))
  | [] =>
    if s.quote.isSome then .error (.malformed (.unterminatedQuote (String.ofList arguments)))
    else if s.inWord then do
      let word ← cut arguments start (utf8Len arguments)
      return [word]
    else .ok []
  | c :: cs =>
    match s.step c with
    | (next, .keep) =>
      splitFrom arguments next (if s.inWord then start else place) (place + c.utf8Size) cs
    | (next, .skip) => splitFrom arguments next start (place + c.utf8Size) cs
    | (next, .finish) => do
      let word ← cut arguments start place
      let words ← splitFrom arguments next start (place + c.utf8Size) cs
      return word :: words

def splitSliced (arguments : List Char) : Except Halt (List (List Char)) :=
  splitFrom arguments {} 0 0 arguments

/-- The words of a text, if no quote is left open in it. -/
def terminated (text : List Char) : Option (List (List Char)) → Except Halt (List (List Char))
  | some ws => .ok ws
  | none => .error (.malformed (.unterminatedQuote (String.ofList text)))

/-- The words that are cut out are the words of the text; `word` is what there is of the open one.
By induction on what is left of the text, with a case for all that becomes of a character. -/
theorem splitFrom_eq {s : WordState} (hs : s.Sound) {cs word : List Char}
    (htext : text = before ++ word ++ cs) (hplace : place = utf8Len before + utf8Len word)
    (hopen : s.inWord = true → start = utf8Len before) (hclosed : s.inWord = false → word = []) :
    splitFrom text s start place cs =
      terminated text ((wordsFrom s cs).map fun ws => word.foldr consWord ws) := by
  induction cs generalizing s before word start place with
  | nil =>
    rw [splitFrom, wordsFrom]
    cases hq : s.quote with
    | some q => rfl
    | none =>
      cases hw : s.inWord with
      | false => simp [hclosed hw, terminated]
      | true =>
        have hword : cut text start (utf8Len text) = .ok word :=
          cut_eq htext (hopen hw) (by simp [htext])
        simp [hword, foldr_consWord, terminated]
  | cons c cs ih =>
    have hmarks := hs.marks c
    have hnext := hs.step c
    rw [splitFrom, wordsFrom]
    generalize s.step c = result at hmarks hnext
    obtain ⟨next, mark⟩ := result
    cases hmarks with
    | keep hin =>
      have hin : next.inWord = true := hin
      have htext' : text = before ++ (word ++ [c]) ++ cs := by simp [htext]
      have hplace' : place + c.utf8Size = utf8Len before + utf8Len (word ++ [c]) := by
        simp [hplace, Nat.add_assoc]
      have hstart : (if s.inWord then start else place) = utf8Len before := by
        cases hw : s.inWord with
        | true => simp [hopen hw]
        | false => simp [hplace, hclosed hw]
      have hrest := ih hnext htext' hplace' (fun _ => hstart) (by simp [hin])
      simp only [hrest, Option.map_map]
      simp [Function.comp_def]
    | skip hout hin =>
      have hin : next.inWord = false := hin
      have htext' : text = before ++ [c] ++ [] ++ cs := by simp [htext, hclosed hout]
      have hplace' : place + c.utf8Size = utf8Len (before ++ [c]) + utf8Len [] := by
        simp [hplace, hclosed hout]
      have hopen' : next.inWord = true → start = utf8Len (before ++ [c]) := by simp [hin]
      have hrest := ih hnext htext' hplace' hopen' fun _ => rfl
      simpa [hclosed hout] using hrest
    | finish hout hin =>
      have hin : next.inWord = false := hin
      have hword : cut text start place = .ok word := cut_eq htext (hopen hout) hplace
      have htext' : text = before ++ word ++ [c] ++ [] ++ cs := by simp [htext]
      have hplace' : place + c.utf8Size = utf8Len (before ++ word ++ [c]) + utf8Len [] := by
        simp [hplace, Nat.add_assoc]
      have hopen' : next.inWord = true → start = utf8Len (before ++ word ++ [c]) := by simp [hin]
      have hrest := ih hnext htext' hplace' hopen' fun _ => rfl
      simp only [hword, hrest]
      cases wordsFrom next cs with
      | none => rfl
      | some ws => simp [terminated, foldr_consWord]; rfl

theorem splitSliced_eq (arguments : List Char) :
    splitSliced arguments = checked (splitWords arguments) := by
  have htext : arguments = [] ++ [] ++ arguments := rfl
  have hplace : 0 = utf8Len [] + utf8Len [] := rfl
  have hopen : WordState.inWord {} = true → 0 = utf8Len [] := fun _ => rfl
  have hall := splitFrom_eq WordState.sound_default htext hplace hopen fun _ => rfl
  rw [splitSliced, hall, splitWords, words]
  cases wordsFrom {} arguments <;> rfl

/-! ## Cases and quotes -/

/-- A case cut at the first `=` outside parentheses in what is left of it from a place on. -/
def caseFrom (word : List Char) (depth place : Nat) :
    List Char → Except Halt (Option (List Char × List Char))
  | [] => .ok none
  | c :: cs =>
    if c = '=' ∧ depth = 0 then do
      let key ← cut word 0 place
      let value ← cut word (place + 1) (utf8Len word)
      return some (key, value)
    else
      let inner := if c = '(' then depth + 1 else if c = ')' then depth - 1 else depth
      caseFrom word inner (place + c.utf8Size) cs

def cutCaseSliced (word : List Char) : Except Halt (Option (List Char × List Char)) :=
  caseFrom word 0 0 word

theorem caseFrom_eq {word cs : List Char} (depth : Nat) (hword : word = before ++ cs)
    (hplace : place = utf8Len before) :
    caseFrom word depth place cs =
      .ok ((cutCase depth cs).map fun (key, value) => (before ++ key, value)) := by
  induction cs generalizing before depth place with
  | nil => rfl
  | cons c cs ih =>
    rw [caseFrom, cutCase]
    split
    · next hc =>
      obtain ⟨rfl, -⟩ := hc
      have hkey : cut word 0 place = .ok before := by
        have htext : word = [] ++ before ++ '=' :: cs := hword
        exact cut_eq htext rfl (by simp [hplace])
      have hvalue : cut word (place + 1) (utf8Len word) = .ok cs := by
        have htext : word = before ++ ['='] ++ cs ++ [] := by simp [hword]
        have hstart : place + 1 = utf8Len (before ++ ['=']) := by
          rw [hplace, String.utf8Len_append]
          rfl
        have hstop : utf8Len word = utf8Len (before ++ ['=']) + utf8Len cs := by
          rw [htext, List.append_nil, String.utf8Len_append]
        exact cut_eq htext hstart hstop
      simp only [hkey, hvalue, Option.map_some, List.append_nil]
      rfl
    · have hword' : word = before ++ [c] ++ cs := by simp [hword]
      have hplace' : place + c.utf8Size = utf8Len (before ++ [c]) := by simp [hplace]
      have hrest := ih (if c = '(' then depth + 1 else if c = ')' then depth - 1 else depth)
        hword' hplace'
      rw [hrest, Option.map_map]
      simp [Function.comp_def]

theorem cutCaseSliced_eq (word : List Char) : cutCaseSliced word = .ok (cutCase 0 word) := by
  have hword : word = [] ++ word := rfl
  have hplace : 0 = utf8Len [] := rfl
  have hall := caseFrom_eq 0 hword hplace
  simpa [cutCaseSliced] using hall

/-- The same quote stands at the start and at the end of the text. -/
def InQuotes (cs : List Char) : Prop :=
  cs.head? = some '\'' ∧ cs.getLast? = some '\'' ∨ cs.head? = some '"' ∧ cs.getLast? = some '"'

instance (cs : List Char) : Decidable (InQuotes cs) :=
  inferInstanceAs (Decidable (_ ∨ _))

/-- The trimmed text, without the quotes around it. -/
def unquoteSliced (cs : List Char) : Except Halt (List Char) :=
  let inner := Text.trim cs
  if 2 ≤ utf8Len inner ∧ InQuotes inner then cut inner 1 (utf8Len inner - 1) else .ok inner

/-- One character is not both quotes. -/
theorem two_le_and_inQuotes_iff (q : Char) (rest : List Char) :
    2 ≤ utf8Len (q :: rest) ∧ InQuotes (q :: rest) ↔
      (q = '"' ∨ q = '\'') ∧ rest.getLast? = some q := by
  cases rest using List.reverseRecOn with
  | nil =>
    simp only [InQuotes, List.head?_cons, List.getLast?_singleton, Option.some.injEq, and_self,
      List.getLast?_nil, reduceCtorEq, and_false, iff_false, not_and]
    rintro hlen (rfl | rfl) <;> exact absurd hlen (by decide)
  | append_singleton middle last =>
    have hlen : 2 ≤ utf8Len (q :: (middle ++ [last])) := by
      have hq := q.utf8Size_pos
      have hlast := last.utf8Size_pos
      simp only [String.utf8Len_cons, String.utf8Len_append, String.utf8Len_nil]
      omega
    have hends : (q :: (middle ++ [last])).getLast? = some last := by
      rw [← List.cons_append, List.getLast?_concat]
    simp only [hlen, InQuotes, hends, List.head?_cons, Option.some.injEq, true_and,
      List.getLast?_concat]
    constructor
    · rintro (⟨rfl, rfl⟩ | ⟨rfl, rfl⟩) <;> simp
    · rintro ⟨rfl | rfl, rfl⟩ <;> simp

theorem unquoteSliced_eq (cs : List Char) : unquoteSliced cs = .ok (unquote cs) := by
  rw [unquoteSliced, unquote]
  generalize Text.trim cs = inner
  cases inner with
  | nil => rfl
  | cons q rest =>
    simp only [two_le_and_inQuotes_iff, Bool.and_eq_true, Bool.or_eq_true, decide_eq_true_eq]
    split
    · next h =>
      obtain ⟨hq, hlast⟩ := h
      obtain ⟨middle, rfl⟩ := List.getLast?_eq_some_iff.mp hlast
      have hsize : q.utf8Size = 1 := by
        obtain rfl | rfl := hq <;> rfl
      rw [List.dropLast_concat]
      have htext : q :: (middle ++ [q]) = [q] ++ middle ++ [q] := by simp
      exact cut_eq htext (by simp [hsize]) (by simp [hsize]; omega)
    · rfl

/-! ## Pieces -/

/-- The expressions for what is left of a text from a place on, by a reader of bodies. The literal
that is open starts at `last`. Inside a body, `body` holds the place where it starts and the number
of parentheses to close, with the one of the body. -/
def scanFrom (content : List Char → Except Halt Substitution) (text : List Char) :
    (last : Nat) → (body : Option (Nat × Nat)) → (place : Nat) → List Char →
      Except Halt (List Substitution)
  | last, none, _, [] =>
    if last < utf8Len text then do
      let literal ← cut text last (utf8Len text)
      return [.text (String.ofList literal)]
    else .ok []
  | last, none, place, '$' :: '(' :: cs => do
    let front ←
      if last < place then do
        let literal ← cut text last place
        pure [Substitution.text (String.ofList literal)]
      else pure []
    let rest ← scanFrom content text last (some (place + 2, 1)) (place + 2) cs
    return front ++ rest
  | last, none, place, c :: cs => scanFrom content text last none (place + c.utf8Size) cs
  | _, some _, _, [] => .error (.malformed (.unmatchedParentheses (String.ofList text)))
  | last, some (start, depth), place, c :: cs =>
    if c = '(' then
      scanFrom content text last (some (start, depth + 1)) (place + c.utf8Size) cs
    else if c = ')' then
      if depth = 1 then do
        let body ← cut text start place
        let e ← content body
        let rest ← scanFrom content text (place + 1) none (place + c.utf8Size) cs
        return e :: rest
      else scanFrom content text last (some (start, depth - 1)) (place + c.utf8Size) cs
    else scanFrom content text last (some (start, depth)) (place + c.utf8Size) cs

/-- The expression for one piece of a text. -/
def pieceBy (content : List Char → Except Halt Substitution) (text : List Char) :
    Piece → Except Halt Substitution
  | .literal cs => .ok (.text (String.ofList cs))
  | .body body => content body
  | .unclosed => .error (.malformed (.unmatchedParentheses (String.ofList text)))

theorem foldr_consLiteral (cs literal : List Char) (ps : List Piece) :
    cs.foldr consLiteral (.literal literal :: ps) = .literal (cs ++ literal) :: ps := by
  induction cs with
  | nil => rfl
  | cons c cs ih => rw [List.foldr_cons, ih]; rfl

/-- A literal before pieces that do not begin with one. -/
theorem foldr_consLiteral_of_not_literal {cs : List Char} (hne : cs ≠ []) {ps : List Piece}
    (hps : ∀ ds, ps.head? ≠ some (.literal ds)) : cs.foldr consLiteral ps = .literal cs :: ps := by
  obtain ⟨front, c, rfl⟩ := (List.eq_nil_or_concat cs).resolve_left hne
  rw [List.concat_eq_append, List.foldr_append, List.foldr_cons, List.foldr_nil,
    consLiteral_of_not_literal c hps, foldr_consLiteral]

theorem head?_consBody {c : Char} {ps : List Piece} (h : ∀ ds, ps.head? ≠ some (.literal ds)) :
    ∀ ds, (consBody c ps).head? ≠ some (.literal ds) := by
  unfold consBody
  split
  · exact nofun
  · exact h

/-- What begins inside a body is not a literal. -/
theorem head?_piecesFrom_some (depth : Nat) (cs : List Char) :
    ∀ ds, (piecesFrom (some depth) cs).head? ≠ some (.literal ds) := by
  induction cs generalizing depth with
  | nil => simp [piecesFrom]
  | cons c cs ih =>
    rw [piecesFrom]
    split
    · split
      · simp
      · exact head?_consBody (ih _)
    · split
      · exact head?_consBody (ih _)
      · exact head?_consBody (ih _)

theorem foldr_consBody_unclosed (cs : List Char) :
    cs.foldr consBody [.unclosed] = [.unclosed] := by
  induction cs with
  | nil => rfl
  | cons c cs ih => rw [List.foldr_cons, ih]; rfl

/-- What the scanner gives from a place on is what the pieces give that are left there. -/
def Scanned (content : List Char → Except Halt Substitution) (text : List Char) :
    Option Nat → List Char → Prop
  | none, cs => ∀ (before literal : List Char) {last place : Nat},
      text = before ++ literal ++ cs → last = utf8Len before →
      place = utf8Len before + utf8Len literal →
      scanFrom content text last none place cs =
        (literal.foldr consLiteral (piecesFrom none cs)).mapM (pieceBy content text)
  | some depth, cs => ∀ (before body : List Char) {last start place : Nat},
      text = before ++ body ++ cs → start = utf8Len before →
      place = utf8Len before + utf8Len body →
      scanFrom content text last (some (start, depth + 1)) place cs =
        (body.foldr consBody (piecesFrom (some depth) cs)).mapM (pieceBy content text)

variable {content : List Char → Except Halt Substitution} {literal body cs : List Char} {c : Char}
  {last depth : Nat}

/-- A character outside of bodies goes to the literal that is open. -/
theorem Scanned.goesOn (h : Scanned content text none cs)
    (htext : text = before ++ literal ++ c :: cs) (hlast : last = utf8Len before)
    (hplace : place = utf8Len before + utf8Len literal) :
    scanFrom content text last none (place + c.utf8Size) cs =
      (literal.foldr consLiteral (consLiteral c (piecesFrom none cs))).mapM
        (pieceBy content text) := by
  have htext' : text = before ++ (literal ++ [c]) ++ cs := by simp [htext]
  have hplace' : place + c.utf8Size = utf8Len before + utf8Len (literal ++ [c]) := by
    simp [hplace, Nat.add_assoc]
  have hrest := h before (literal ++ [c]) htext' hlast hplace'
  rwa [List.foldr_append, List.foldr_cons, List.foldr_nil] at hrest

/-- A character that does not close the body goes to it. -/
theorem Scanned.inside (h : Scanned content text (some depth) cs)
    (htext : text = before ++ body ++ c :: cs) (hstart : start = utf8Len before)
    (hplace : place = utf8Len before + utf8Len body) :
    scanFrom content text last (some (start, depth + 1)) (place + c.utf8Size) cs =
      (body.foldr consBody (consBody c (piecesFrom (some depth) cs))).mapM
        (pieceBy content text) := by
  have htext' : text = before ++ (body ++ [c]) ++ cs := by simp [htext]
  have hplace' : place + c.utf8Size = utf8Len before + utf8Len (body ++ [c]) := by
    simp [hplace, Nat.add_assoc]
  have hrest := @h before (body ++ [c]) last _ _ htext' hstart hplace'
  rwa [List.foldr_append, List.foldr_cons, List.foldr_nil] at hrest

/-- A literal ends where a body begins. -/
theorem Scanned.opens (h : Scanned content text (some 0) cs)
    (htext : text = before ++ literal ++ '$' :: '(' :: cs)
    (hplace : place = utf8Len before + utf8Len literal) :
    scanFrom content text last (some (place + 2, 1)) (place + 2) cs =
      (piecesFrom (some 0) cs).mapM (pieceBy content text) := by
  have hstart : place + 2 = utf8Len (before ++ literal ++ ['$', '(']) := by
    rw [String.utf8Len_append, String.utf8Len_append, hplace]
    rfl
  exact h (before ++ literal ++ ['$', '(']) [] (by simp [htext]) hstart hstart

/-- A literal begins where a body ends. -/
theorem Scanned.closes (h : Scanned content text none cs)
    (htext : text = before ++ body ++ ')' :: cs)
    (hplace : place = utf8Len before + utf8Len body) :
    scanFrom content text (place + 1) none (place + 1) cs =
      (piecesFrom none cs).mapM (pieceBy content text) := by
  have hlast : place + 1 = utf8Len (before ++ body ++ [')']) := by
    rw [String.utf8Len_append, String.utf8Len_append, hplace]
    rfl
  exact h (before ++ body ++ [')']) [] (by simp [htext]) hlast hlast

/-- By induction on what is left of the text, as it is cut into pieces. -/
theorem scanned (content : List Char → Except Halt Substitution) (text : List Char)
    (state : Option Nat) (cs : List Char) : Scanned content text state cs := by
  have hclosing : (')' : Char) ≠ '(' := by decide
  fun_induction piecesFrom state cs with
  | case1 =>
    intro before literal last place htext hlast hplace
    rw [scanFrom, piecesFrom]
    by_cases hne : literal = []
    · have hlen : ¬ last < utf8Len text := by simp [htext, hlast, hne]
      rw [if_neg hlen, hne]
      rfl
    · have hlen : last < utf8Len text := by simp [htext, hlast, Nat.pos_iff_ne_zero, hne]
      have hliteral : cut text last (utf8Len text) = .ok literal :=
        cut_eq htext hlast (by simp [htext])
      rw [if_pos hlen, hliteral, foldr_consLiteral_of_not_literal hne (by simp)]
      rfl
  | case2 depth =>
    intro before body last start place htext hstart hplace
    rw [scanFrom, piecesFrom, foldr_consBody_unclosed]
    rfl
  | case3 cs ih =>
    intro before literal last place htext hlast hplace
    rw [scanFrom, piecesFrom, ih.opens htext hplace]
    by_cases hne : literal = []
    · have hlen : ¬ last < place := by simp [hlast, hplace, hne]
      rw [if_neg hlen, hne]
      simp
    · have hlen : last < place := by simp [hlast, hplace, Nat.pos_iff_ne_zero, hne]
      have hliteral : cut text last place = .ok literal := cut_eq htext hlast hplace
      rw [if_pos hlen, hliteral,
        foldr_consLiteral_of_not_literal hne (head?_piecesFrom_some 0 cs), List.mapM_cons]
      rfl
  | case4 c cs hopen ih =>
    intro before literal last place htext hlast hplace
    rw [scanFrom, piecesFrom, ih.goesOn htext hlast hplace]
    · exact hopen
    · exact hopen
  | case5 cs ih =>
    intro before body last start place htext hstart hplace
    have hbody : cut text start place = .ok body := cut_eq htext hstart hplace
    have hrest : scanFrom content text (place + 1) none (place + ')'.utf8Size) cs =
        (piecesFrom none cs).mapM (pieceBy content text) := ih.closes htext hplace
    rw [scanFrom, piecesFrom, if_neg hclosing, if_pos rfl, if_pos rfl, if_pos rfl, if_pos rfl,
      hbody, hrest, foldr_consBody, List.mapM_cons, List.append_nil]
    rfl
  | case6 depth cs hdepth ih =>
    intro before body last start place htext hstart hplace
    obtain ⟨depth, rfl⟩ := Nat.exists_eq_succ_of_ne_zero hdepth
    rw [scanFrom, piecesFrom, if_neg hclosing, if_pos rfl, if_pos rfl, if_neg hdepth,
      if_neg (by omega)]
    exact ih.inside htext hstart hplace
  | case7 depth cs hopen ih =>
    intro before body last start place htext hstart hplace
    rw [scanFrom, piecesFrom, if_pos rfl, if_neg hopen, if_pos rfl]
    exact ih.inside htext hstart hplace
  | case8 depth c cs hclose hopen ih =>
    intro before body last start place htext hstart hplace
    rw [scanFrom, piecesFrom, if_neg hopen, if_neg hclose, if_neg hclose, if_neg hopen]
    exact ih.inside htext hstart hplace

/-- A text is read piece by piece. -/
theorem scanFrom_eq (content : List Char → Except Halt Substitution) (text : List Char) :
    scanFrom content text 0 none 0 text = (pieces text).mapM (pieceBy content text) :=
  scanned content text none text [] [] rfl rfl rfl

end Substitution

end LaunchPlan
