import LaunchPlan.Substitution
import LaunchPlan.Substitution.Malformed
import LaunchPlan.Substitution.Words

/-!
# Reading expressions

A text is cut into literal pieces and the bodies of `$(...)`. The body ends at
the parenthesis that closes the first one; quotes play no part in that. A body
names its kind and has arguments, which may hold expressions again. Every text
read on the way is shorter than the one it stands in, which is what the reader
recurses on.
-/

namespace LaunchPlan.Substitution

inductive Piece
  | literal (cs : List Char)
  | body (cs : List Char)
  /-- A `$(` without its closing parenthesis; nothing follows it. -/
  | unclosed
  deriving DecidableEq, Repr

/-- A character put before the first piece, outside of every body. -/
def consLiteral (c : Char) : List Piece → List Piece
  | .literal cs :: rest => .literal (c :: cs) :: rest
  | ps => .literal [c] :: ps

/-- A character put before the first piece, inside a body. -/
def consBody (c : Char) : List Piece → List Piece
  | .body cs :: rest => .body (c :: cs) :: rest
  | ps => ps

/-- The pieces of a text. Inside a body, `depth` counts the parentheses opened in it; the first
piece then goes on with the body. -/
def piecesFrom : (depth : Option Nat) → List Char → List Piece
  | none, [] => []
  | some _, [] => [.unclosed]
  | none, '$' :: '(' :: cs => piecesFrom (some 0) cs
  | none, c :: cs => consLiteral c (piecesFrom none cs)
  | some depth, c :: cs =>
    if c = ')' then
      if depth = 0 then .body [] :: piecesFrom none cs
      else consBody c (piecesFrom (some (depth - 1)) cs)
    else if c = '(' then consBody c (piecesFrom (some (depth + 1)) cs)
    else consBody c (piecesFrom (some depth) cs)

/-- The pieces of a text, in order. -/
def pieces (cs : List Char) : List Piece :=
  piecesFrom none cs

theorem mem_of_mem_consLiteral {c : Char} {ps : List Piece} {b : List Char}
    (h : .body b ∈ consLiteral c ps) : .body b ∈ ps := by
  unfold consLiteral at h
  split at h <;> simp_all

theorem length_of_mem_consBody {c : Char} {ps : List Piece} {b : List Char} {n : Nat}
    (hp : ∀ b, .body b ∈ ps → b.length < n) (h : .body b ∈ consBody c ps) :
    b.length < n + 1 := by
  unfold consBody at h
  split at h
  · next b' rest =>
    rcases List.mem_cons.1 h with hb | hb
    · cases hb
      have := hp b' (by simp)
      simp only [List.length_cons]
      omega
    · have := hp b (by simp [hb])
      omega
  · have := hp b h
    omega

/-- A body is shorter than the text it stands in, also when that text starts inside it. -/
theorem length_body_lt_piecesFrom {depth : Option Nat} {b cs : List Char}
    (h : .body b ∈ piecesFrom depth cs) : b.length < cs.length := by
  fun_induction piecesFrom depth cs generalizing b with
  | case1 => simp at h
  | case2 => simp at h
  | case3 cs ih =>
    have := ih h
    simp only [List.length_cons]
    omega
  | case4 c cs _ ih =>
    have := ih (mem_of_mem_consLiteral h)
    simp only [List.length_cons]
    omega
  | case5 cs ih =>
    rcases List.mem_cons.1 h with hb | hb
    · cases hb
      simp
    · have := ih hb
      simp only [List.length_cons]
      omega
  | case6 depth cs _ ih => exact length_of_mem_consBody (fun _ => ih) h
  | case7 depth cs _ ih => exact length_of_mem_consBody (fun _ => ih) h
  | case8 depth c cs _ _ ih => exact length_of_mem_consBody (fun _ => ih) h

theorem length_body_lt {b cs : List Char} (h : .body b ∈ pieces cs) : b.length < cs.length :=
  length_body_lt_piecesFrom h

/-- The kind that a body names, and its arguments. -/
def kindAndArguments (body : List Char) : List Char × List Char :=
  match Text.cutAtBlank (Text.trim body) with
  | some (kind, rest) => (kind, Text.trim rest)
  | none => (Text.trim body, [])

theorem length_arguments_le (body : List Char) :
    (kindAndArguments body).2.length ≤ body.length := by
  have ht := Text.length_trim_le body
  unfold kindAndArguments
  split
  · next kind rest h =>
    have := Text.length_cutAtBlank h
    have := Text.length_trim_le rest
    simp only
    omega
  · simp

/-- A case cut at the first `=` outside parentheses. -/
def cutCase (depth : Nat) : List Char → Option (List Char × List Char)
  | [] => none
  | c :: cs =>
    if c = '=' ∧ depth = 0 then some ([], cs)
    else
      let inner := if c = '(' then depth + 1 else if c = ')' then depth - 1 else depth
      (cutCase inner cs).map fun (key, value) => (c :: key, value)

theorem length_cutCase {depth : Nat} {cs key value : List Char}
    (h : cutCase depth cs = some (key, value)) : key.length + value.length + 1 = cs.length := by
  induction cs generalizing depth key value with
  | nil => simp [cutCase] at h
  | cons c cs ih =>
    rw [cutCase] at h
    split at h
    · simp only [Option.some.injEq, Prod.mk.injEq] at h
      obtain ⟨rfl, rfl⟩ := h
      simp
    · obtain ⟨⟨k, v⟩, hk, heq⟩ := Option.map_eq_some_iff.1 h
      simp only [Prod.mk.injEq] at heq
      obtain ⟨rfl, rfl⟩ := heq
      have := ih hk
      simp only [List.length_cons]
      omega

/-- A reader for the texts that are not longer than `bound`. -/
abbrev Nested (bound : Nat) : Type :=
  (cs : List Char) → cs.length ≤ bound → Except Malformed (List Substitution)

/-- The expressions of one word: a quoted word is read without its quotes, and the empty word is
the empty text. -/
def readWord (word : List Char) (nested : Nested word.length) :
    Except Malformed (List Substitution) :=
  if (unquote word).isEmpty then .ok [.text ""] else nested (unquote word) (length_unquote_le word)

def splitWords (arguments : List Char) : Except Malformed (List (List Char)) :=
  match words arguments with
  | some ws => .ok ws
  | none => .error (.unterminatedQuote (String.ofList arguments))

theorem words_of_splitWords {arguments : List Char} {ws : List (List Char)}
    (h : splitWords arguments = .ok ws) : words arguments = some ws := by
  unfold splitWords at h
  split at h <;> simp_all

theorem length_le_of_splitWords {arguments word : List Char} {ws : List (List Char)}
    (h : splitWords arguments = .ok ws) (hw : word ∈ ws) : word.length ≤ arguments.length := by
  have := joinedLength_words_le (words_of_splitWords h)
  have := length_le_joinedLength hw
  omega

theorem length_joinWords_le_of_splitWords {arguments first : List Char} {rest : List (List Char)}
    (h : splitWords arguments = .ok (first :: rest)) :
    (joinWords rest).length ≤ arguments.length := by
  have h1 := joinedLength_words_le (words_of_splitWords h)
  have h2 := length_joinWords_le rest
  simp only [joinedLength] at h1
  omega

/-- Whether a `$(` stands somewhere in the text. -/
def opensNested : List Char → Bool
  | '$' :: '(' :: _ => true
  | _ :: cs => opensNested cs
  | [] => false

/-- `$(var name)` -/
def readArgument (arguments : List Char) : Except Malformed Substitution :=
  if opensNested arguments || arguments.any Text.isBlank then
    .error (.plainNameExpected (String.ofList arguments))
  else .ok (.argument (String.ofList arguments))

/-- `$(env NAME default ...)`; the words of the default are joined by single blanks. -/
def readEnv (arguments : List Char) (nested : Nested arguments.length) :
    Except Malformed Substitution :=
  match h : splitWords arguments with
  | .error e => .error e
  | .ok [] => .error .variableNameMissing
  | .ok [name] => .ok (.env (String.ofList (unquote name)) none)
  | .ok (name :: rest) => do
    let default ← readWord (joinWords rest) fun cs hcs =>
      nested cs (Nat.le_trans hcs (length_joinWords_le_of_splitWords h))
    .ok (.env (String.ofList (unquote name)) (some default))

/-- One expression for each word. -/
def readOperands (arguments : List Char) (nested : Nested arguments.length) :
    Except Malformed (List Substitution) :=
  match h : splitWords arguments with
  | .error e => .error e
  | .ok ws => ws.attach.mapM fun ⟨word, hw⟩ =>
    ofParts <$> readWord word fun cs hcs =>
      nested cs (Nat.le_trans hcs (length_le_of_splitWords h hw))

/-- One `KEY=VALUE` of a selector. -/
def readCase (word : List Char) (nested : Nested word.length) :
    Except Malformed (List Char × Substitution) :=
  match h : cutCase 0 word with
  | none => .error (.notKeyValue (String.ofList word))
  | some (key, value) => do
    let parts ← readWord value fun cs hcs =>
      nested cs (Nat.le_trans hcs (by have := length_cutCase h; omega))
    .ok (key, ofParts parts)

/-- A selector for a list of cases; the key `*` sets the default, the last one winning. -/
def selectorOf (condition : Substitution) (cases : List (List Char × Substitution)) :
    Selector Substitution Substitution :=
  cases.foldl
    (fun s (key, value) =>
      if key = wildcard.toList then s.otherwise value
      else s.case (String.ofList (unquote key)) value)
    { condition }

/-- `$(select COND KEY=VALUE ... *=DEFAULT)` -/
def readSelect (arguments : List Char) (nested : Nested arguments.length) :
    Except Malformed Substitution :=
  match h : splitWords arguments with
  | .error e => .error e
  | .ok [] => .error .conditionMissing
  | .ok [_] => .error .casesMissing
  | .ok (first :: case :: rest) => do
    let within {word : List Char} (hw : word ∈ first :: case :: rest) : Nested word.length :=
      fun cs hcs => nested cs (Nat.le_trans hcs (length_le_of_splitWords h hw))
    let condition ← readWord first (within (List.mem_cons_self ..))
    let cases ← (case :: rest).attach.mapM fun ⟨word, hw⟩ =>
      readCase word (within (List.mem_cons_of_mem _ hw))
    .ok (.select (selectorOf (ofParts condition) cases))

/-- The expression that a kind makes of its arguments. -/
def readKind (kind : String) (arguments : List Char) (nested : Nested arguments.length) :
    Except Malformed Substitution :=
  let unquoted : Except Malformed (List Substitution) :=
    nested (unquote arguments) (length_unquote_le arguments)
  let needsArgument (read : Except Malformed Substitution) : Except Malformed Substitution :=
    if arguments.isEmpty then .error (.argumentMissing kind) else read
  match kind with
  | "" => .error .empty
  | "var" => needsArgument (readArgument arguments)
  | "env" => needsArgument (readEnv arguments nested)
  | "command" => needsArgument (command <$> unquoted)
  | "find-pkg-share" => needsArgument (findPackageShare <$> unquoted)
  | "path-join" => needsArgument (pathJoin <$> readOperands arguments nested)
  | "select" => needsArgument (readSelect arguments nested)
  | _ => .error (.unknownKind kind)

/-- The expression for the body of a `$(...)`. -/
def readBody (body : List Char) (nested : Nested body.length) : Except Malformed Substitution :=
  readKind (String.ofList (kindAndArguments body).1) (kindAndArguments body).2 fun cs hcs =>
    nested cs (Nat.le_trans hcs (length_arguments_le body))

/-- The expressions of a text shorter than `limit`, one for each piece. The empty text is one
empty literal. -/
def readWithin : (limit : Nat) → (cs : List Char) → cs.length < limit →
    Except Malformed (List Substitution)
  | 0, _, h => absurd h (Nat.not_lt_zero _)
  | limit + 1, cs, hlt =>
    if cs.isEmpty then .ok [.text ""]
    else (pieces cs).attach.mapM fun ⟨piece, hp⟩ =>
      match piece, hp with
      | .literal t, _ => .ok (.text (String.ofList t))
      | .unclosed, _ => .error (.unmatchedParentheses (String.ofList cs))
      | .body b, hb => readBody b fun ds hds =>
        readWithin limit ds (by have := length_body_lt hb; omega)

/-- The expressions that a text stands for. -/
def readChars (cs : List Char) : Except Malformed (List Substitution) :=
  readWithin (cs.length + 1) cs (Nat.lt_succ_self _)

/-- The expressions that a text stands for. -/
def read (text : String) : Except Malformed (List Substitution) :=
  readChars text.toList

/-- One list of expressions for each word of a text. -/
def readWords (text : String) : Except Malformed (List (List Substitution)) := do
  (← splitWords text.toList).mapM fun word => readWord word fun cs _ => readChars cs

end LaunchPlan.Substitution
