import LaunchPlan.Proofs.CanonicalText
import Mathlib.Data.List.Induction

/-!
# Reading the canonical text back

The reader gives back every normal list of expressions from its text. What it reads inside of
parentheses is shorter, so this is proved for all shorter texts at once, kind by kind.
-/

namespace LaunchPlan.Substitution

/-- A reader of shorter texts gives back the normal lists that have such texts. -/
def ReadsBack {bound : Nat} (nested : Nested bound) : Prop :=
  ∀ parts, NormalList .command parts → ∀ cs (h : cs.length ≤ bound), cs = writeAll parts →
    nested cs h = .ok parts

theorem ReadsBack.within {bound length : Nat} {nested : Nested bound} (h : ReadsBack nested)
    (hle : length ≤ bound) :
    ReadsBack (fun cs hcs => nested cs (Nat.le_trans hcs hle) : Nested length) :=
  fun parts hparts cs _ heq => h parts hparts cs _ heq

theorem bind_of_ok {ε α β : Type} {x : Except ε α} {a : α} {f : α → Except ε β} (h : x = .ok a) :
    x >>= f = f a := by
  rw [h]
  rfl

theorem NormalList.word {parts : List Substitution} (h : NormalList .list parts) :
    Word (writeAll parts) where
  balanced := writeAll_balanced fun part hp => (h.normal part hp).written.balanced
  nonempty := writeAll_ne_nil h.nonempty fun part hp => (h.normal part hp).written.nonempty

theorem Word.unquote_eq {cs : List Char} (h : Word cs) : unquote cs = cs :=
  Substitution.unquote_eq h.balanced h.trimmed

theorem Normal.word {e : Substitution} (h : Normal .operand e) : Word (write e) :=
  h.written.word

/-- An operand is one expression for a normal list. -/
theorem Normal.exists_parts {e : Substitution} (h : Normal .operand e) :
    ∃ parts, NormalList .list parts ∧ writeAll parts = write e ∧ ofParts parts = e := by
  cases h with
  | alone h =>
    refine ⟨[e], ⟨List.cons_ne_nil e [], List.isChain_singleton e, by simpa using h⟩, ?_, rfl⟩
    simp [writeAll]
  | @concat parts hlen hsep hparts =>
    refine ⟨parts, ⟨List.ne_nil_of_length_pos (by omega), hsep, hparts⟩, rfl, ?_⟩
    obtain _ | ⟨first, _ | ⟨second, rest⟩⟩ := parts
    · simp at hlen
    · simp at hlen
    · rfl

section Words

variable {word arguments : List Char}

theorem readWord_back {nested : Nested word.length} (hr : ReadsBack nested)
    {parts : List Substitution} (h : NormalList .list parts) (hw : word = writeAll parts) :
    readWord word nested = .ok parts := by
  have hword : Word word := hw ▸ h.word
  have hne : ¬ (unquote word).isEmpty = true := by
    rw [hword.unquote_eq, List.isEmpty_iff]
    exact hword.nonempty
  rw [readWord, if_neg hne]
  exact hr parts h.inCommand _ _ (hword.unquote_eq.trans hw)

theorem readWord_operand {nested : Nested word.length} (hr : ReadsBack nested) {e : Substitution}
    (h : Normal .operand e) (hw : word = write e) : ofParts <$> readWord word nested = .ok e := by
  obtain ⟨parts, hparts, hwrite, he⟩ := h.exists_parts
  rw [readWord_back hr hparts (hw.trans hwrite.symm)]
  exact congrArg Except.ok he

theorem splitWords_joinWords {ws : List (List Char)} (h : ∀ w ∈ ws, Kept {} w) :
    splitWords (joinWords ws) = .ok ws := by
  rw [splitWords, words_joinWords h]

theorem writeEach_word {parts : List Substitution} (h : ∀ part ∈ parts, Normal .operand part) :
    ∀ w ∈ writeEach parts, Word w := by
  rw [writeEach_eq]
  exact List.forall_mem_map.2 fun part hp => (h part hp).word

theorem readOperands_back {nested : Nested arguments.length} (hr : ReadsBack nested)
    {parts : List Substitution} (h : ∀ part ∈ parts, Normal .operand part)
    (ha : arguments = joinWords (writeEach parts)) : readOperands arguments nested = .ok parts := by
  have hsplit : splitWords arguments = .ok (parts.map write) := by
    rw [ha, splitWords_joinWords fun w hw => (writeEach_word h w hw).kept, writeEach_eq]
  unfold readOperands
  split
  · next e he =>
    rw [he] at hsplit
    cases hsplit
  · next ws hws =>
    have heq : ws = parts.map write := Except.ok.inj (hws.symm.trans hsplit)
    have hmap : parts.map id = parts := List.map_id parts
    rw [← hmap]
    exact mapM_attach_ok heq fun part hp hy =>
      readWord_operand (hr.within (length_le_of_splitWords hws hy)) (h part hp) rfl

theorem readEnv_back {nested : Nested arguments.length} (hr : ReadsBack nested) {name : String}
    (hn : Plain name) {default : Option (List Substitution)}
    (hd : ∀ parts ∈ default, NormalList .list parts)
    (ha : arguments = joinWords (name.toList :: writeDefault default)) :
    readEnv arguments nested = .ok (.env name default) := by
  have hsplit : splitWords arguments = .ok (name.toList :: writeDefault default) := by
    rw [ha]
    refine splitWords_joinWords (List.forall_mem_cons.2 ⟨hn.word.kept, fun w hw => ?_⟩)
    cases default with
    | none => cases hw
    | some parts =>
      obtain rfl := List.mem_singleton.1 hw
      exact (hd parts rfl).word.kept
  have hname : String.ofList (unquote name.toList) = name := by
    rw [hn.word.unquote_eq, String.ofList_toList]
  unfold readEnv
  split
  · next e he =>
    rw [he] at hsplit
    cases hsplit
  · next he =>
    rw [he] at hsplit
    cases hsplit
  · next w hws =>
    rw [hws] at hsplit
    cases default with
    | none =>
      cases hsplit
      rw [hname]
    | some parts => cases hsplit
  · next w rest hrest hws =>
    rw [hws] at hsplit
    cases default with
    | none =>
      cases hsplit
      exact absurd rfl hrest
    | some parts =>
      cases hsplit
      have hread := readWord_back (hr.within (length_joinWords_le_of_splitWords hws)) (hd parts rfl)
        (by simp [writeDefault])
      exact (bind_of_ok hread).trans (by rw [hname])

theorem readCase_back {nested : Nested word.length} (hr : ReadsBack nested)
    {c : String × Substitution} (hk : Plain c.1) (hv : Normal .operand c.2) (hw : word = caseWord c) :
    readCase word nested = .ok (c.1.toList, c.2) := by
  have hcut : cutCase 0 word = some (c.1.toList, write c.2) := by
    rw [hw, caseWord]
    exact cutCase_eq fun d hd => ⟨(hk.chars d hd).1, (hk.chars d hd).2.2.2⟩
  unfold readCase
  split
  · next h =>
    rw [hcut] at h
    cases h
  · next key value h =>
    rw [hcut] at h
    cases h
    obtain ⟨parts, hparts, hwrite, he⟩ := hv.exists_parts
    have hle : (write c.2).length ≤ word.length := by
      have hlength := length_cutCase h
      omega
    refine (bind_of_ok (readWord_back (hr.within hle) hparts hwrite.symm)).trans ?_
    rw [he]

end Words

/-- The values that cases have under a key, in order. -/
def valuesOf {α : Type} (key : String) (cases : List (String × α)) : List α :=
  (cases.filter fun c => c.1 = key).map Prod.snd

theorem valuesOf_append {α : Type} (key : String) (cases more : List (String × α)) :
    valuesOf key (cases ++ more) = valuesOf key cases ++ valuesOf key more := by
  simp [valuesOf]

theorem valuesOf_eq_nil_iff {α : Type} {key : String} {cases : List (String × α)} :
    valuesOf key cases = [] ↔ ∀ c ∈ cases, c.1 ≠ key := by
  simp [valuesOf]

/-- The cases of a selector are put back in order, except that the last value under `*` is its
default and the others under that key are lost. By induction from the end, as each case is put into
a selector of those in front of it. -/
theorem selectorOf_eq (condition : Substitution) {cases : List (String × Substitution)}
    (hkeys : ∀ c ∈ cases, Plain c.1) :
    selectorOf condition (cases.map fun c => (c.1.toList, c.2)) =
      ⟨condition, cases.filter fun c => c.1 ≠ wildcard, (valuesOf wildcard cases).getLast?⟩ := by
  induction cases using List.reverseRecOn with
  | nil => rfl
  | append_singleton cases c ih =>
    obtain ⟨hcases, hc⟩ := List.forall_mem_append.1 hkeys
    have hplain : Plain c.1 := hc c (List.mem_singleton_self c)
    have hrest := ih hcases
    rw [selectorOf] at hrest ⊢
    rw [List.map_append, List.foldl_append, hrest, valuesOf_append, List.filter_append]
    by_cases hwild : c.1 = wildcard
    · simp [hwild, valuesOf, Selector.otherwise]
    · have hkey : c.1.toList ≠ wildcard.toList := fun h => hwild (String.toList_inj.1 h)
      simp [hwild, hkey, valuesOf, Selector.case, hplain.word.unquote_eq]

theorem selectorOf_entries (condition : Substitution) {cases : List (String × Substitution)}
    (hkeys : ∀ c ∈ cases, Plain c.1 ∧ c.1 ≠ wildcard) (default : Option Substitution) :
    selectorOf condition ((entries cases default).map fun c => (c.1.toList, c.2)) =
      ⟨condition, cases, default⟩ := by
  have hentries : ∀ c ∈ entries cases default, Plain c.1 := fun c hc =>
    (forall_entries (Q := fun _ => True) hkeys (by simp) (by simp) c hc).1
  have hvalues : valuesOf wildcard cases = [] := valuesOf_eq_nil_iff.2 fun c hc => (hkeys c hc).2
  have hkept : (cases.filter fun c => c.1 ≠ wildcard) = cases :=
    List.filter_eq_self.2 fun c hc => by simpa using (hkeys c hc).2
  rw [selectorOf_eq condition hentries, entries, List.filter_append, hkept, valuesOf_append, hvalues]
  cases default <;> simp [valuesOf]

theorem writeSelect_word {condition : Substitution} {cases : List (String × Substitution)}
    (hcondition : Normal .operand condition)
    (hcases : ∀ c ∈ cases, Plain c.1 ∧ Normal .operand c.2) :
    ∀ w ∈ write condition :: cases.map caseWord, Word w :=
  List.forall_mem_cons.2 ⟨hcondition.word, List.forall_mem_map.2 fun c hc =>
    caseWord_word (hcases c hc).1 (hcases c hc).2.word⟩

/-- A selector is read from its words, with as many cases as are written. -/
theorem readSelect_cases {arguments : List Char} {nested : Nested arguments.length}
    (hr : ReadsBack nested) {condition : Substitution} {cases : List (String × Substitution)}
    (hcondition : Normal .operand condition)
    (hcases : ∀ c ∈ cases, Plain c.1 ∧ Normal .operand c.2) (hne : cases ≠ [])
    (ha : arguments = joinWords (write condition :: cases.map caseWord)) :
    readSelect arguments nested =
      .ok (.select (selectorOf condition (cases.map fun c => (c.1.toList, c.2)))) := by
  have hsplit : splitWords arguments = .ok (write condition :: cases.map caseWord) := by
    rw [ha, splitWords_joinWords fun w hw => (writeSelect_word hcondition hcases w hw).kept]
  have hwords : cases.map caseWord ≠ [] := by simpa using hne
  obtain ⟨parts, hparts, hwrite, he⟩ := hcondition.exists_parts
  unfold readSelect
  split
  · next e h =>
    rw [h] at hsplit
    cases hsplit
  · next h =>
    rw [h] at hsplit
    cases hsplit
  · next w h =>
    rw [h] at hsplit
    exact absurd (List.cons.inj (Except.ok.inj hsplit)).2.symm hwords
  · next first case rest h =>
    obtain ⟨hfirst, hrest⟩ := List.cons.inj (Except.ok.inj (h.symm.trans hsplit))
    have hle : ∀ w ∈ first :: case :: rest, w.length ≤ arguments.length := fun w =>
      length_le_of_splitWords h
    have hfirst := readWord_back (hr.within (hle first (List.mem_cons_self ..))) hparts
      (hfirst.trans hwrite.symm)
    refine (bind_of_ok hfirst).trans ?_
    refine (bind_of_ok (mapM_attach_ok (g := fun c => (c.1.toList, c.2)) hrest fun c hc hy =>
      readCase_back (hr.within (hle _ (List.mem_cons_of_mem _ hy))) (hcases c hc).1
        (hcases c hc).2 rfl)).trans ?_
    rw [he]

theorem entries_ne_nil {cases : List (String × Substitution)} {default : Option Substitution}
    (h : cases ≠ [] ∨ default.isSome = true) : entries cases default ≠ [] := by
  rcases h with h | h
  · simp [entries, h]
  · obtain ⟨value, rfl⟩ := Option.isSome_iff_exists.1 h
    simp [entries]

theorem opensNested_eq_false {cs : List Char} (h : ∀ c ∈ cs, c ≠ '$') : opensNested cs = false := by
  induction cs with
  | nil => rfl
  | cons c cs ih =>
    obtain ⟨hc, hcs⟩ := List.forall_mem_cons.1 h
    rw [opensNested, ih hcs]
    exact fun rest hc' => absurd hc' hc

theorem readArgument_back {name : String} (h : Plain name) :
    readArgument name.toList = .ok (.argument name) := by
  have hopens := opensNested_eq_false fun c hc => (h.chars c hc).2.2.1
  have hblank : name.toList.any Text.isBlank = false := by
    rw [List.any_eq_false]
    exact fun c hc => by simp [h.not_blank c hc]
  rw [readArgument, hopens, hblank, String.ofList_toList]
  rfl

theorem readBody_eq {body kind arguments : List Char}
    (h : kindAndArguments body = (kind, arguments)) (hle : arguments.length ≤ body.length)
    (nested : Nested body.length) :
    readBody body nested =
      readKind (String.ofList kind) arguments fun cs hcs => nested cs (Nat.le_trans hcs hle) := by
  have heq : ∀ cut (_ : cut = (kind, arguments)) (hcut : cut.2.length ≤ body.length),
      readKind (String.ofList cut.1) cut.2 (fun cs hcs => nested cs (Nat.le_trans hcs hcut)) =
        readKind (String.ofList kind) arguments fun cs hcs => nested cs (Nat.le_trans hcs hle) := by
    rintro _ rfl _
    rfl
  exact heq _ h (length_arguments_le body)

/-- A call is read by its kind from its words. -/
theorem readBody_call {kind : String} {ws : List (List Char)} (hk : kind ∈ kinds)
    (ht : Trimmed (joinWords ws) ∧ joinWords ws ≠ []) {e : Substitution}
    (h : ∀ nested : Nested (joinWords ws).length, ReadsBack nested →
      (joinWords ws).isEmpty = false → readKind kind (joinWords ws) nested = .ok e)
    {nested : Nested (callBody kind ws).length} (hr : ReadsBack nested) :
    readBody (callBody kind ws) nested = .ok e := by
  have hplain := plain_of_mem_kinds kind hk
  have hcut : kindAndArguments (callBody kind ws) = (kind.toList, joinWords ws) :=
    kindAndArguments_eq hplain.not_blank hplain.word.nonempty ht.1 ht.2
  have hle : (joinWords ws).length ≤ (callBody kind ws).length := by
    simp only [callBody, List.length_append, List.length_cons]
    omega
  rw [readBody_eq hcut hle, String.ofList_toList]
  exact h _ (hr.within hle) (by simpa using ht.2)

theorem readBody_words {kind : String} {ws : List (List Char)} (hk : kind ∈ kinds) (hne : ws ≠ [])
    (hws : ∀ w ∈ ws, Word w) {e : Substitution}
    (h : ∀ nested : Nested (joinWords ws).length, ReadsBack nested →
      (joinWords ws).isEmpty = false → readKind kind (joinWords ws) nested = .ok e)
    {nested : Nested (callBody kind ws).length} (hr : ReadsBack nested) :
    readBody (callBody kind ws) nested = .ok e :=
  readBody_call hk (joinWords_trimmed hne fun w hw => (hws w hw).whole) h hr

/-- What stands alone after its kind is read as a list. -/
theorem nested_unquote {arguments : List Char} {nested : Nested arguments.length}
    (hr : ReadsBack nested) {parts : List Substitution} (h : NormalList .command parts)
    (ht : Trimmed (writeAll parts)) (ha : arguments = writeAll parts) :
    nested (unquote arguments) (length_unquote_le arguments) = .ok parts := by
  subst ha
  have hbalanced := writeAll_balanced fun part hp => (h.normal part hp).written.balanced
  exact hr parts h _ _ (unquote_eq hbalanced ht)

/-- An expression is read back from its body. -/
theorem readBody_back {e : Substitution} (h : Normal .list e) (ht : e.isText = false)
    {body : List Char} (hb : piece e = .body body) {nested : Nested body.length}
    (hr : ReadsBack nested) : readBody body nested = .ok e := by
  have hbody : ∀ kind ws, write e = call kind ws → body = callBody kind ws := by
    intro kind ws hw
    rw [piece_of_isText ht, hw] at hb
    simpa [call] using (Piece.body.inj hb).symm
  cases h with
  | text hs => cases ht
  | @argument name hn =>
    obtain rfl := hbody "var" [name.toList] rfl
    refine readBody_words (by simp [kinds]) (by simp) (by simpa using hn.word) (fun nested hr hne => ?_) hr
    rw [joinWords_singleton] at hne
    simp only [readKind, joinWords_singleton, hne]
    exact readArgument_back hn
  | @env name hn =>
    obtain rfl := hbody "env" [name.toList] rfl
    refine readBody_words (by simp [kinds]) (by simp) (by simpa using hn.word) (fun nested hr hne => ?_) hr
    simp only [readKind, hne]
    exact readEnv_back hr hn (by simp) rfl
  | @envOr name parts hn hne hsep hparts =>
    have hd : NormalList .list parts := ⟨hne, hsep, hparts⟩
    obtain rfl := hbody "env" [name.toList, writeAll parts] rfl
    refine readBody_words (by simp [kinds]) (by simp) (by simpa using ⟨hn.word, hd.word⟩)
      (fun nested hr hne => ?_) hr
    simp only [readKind, hne]
    exact readEnv_back hr hn (by simpa using hd) rfl
  | @command parts hne hsep hparts htrim =>
    obtain rfl := hbody "command" [writeAll parts] rfl
    have hargs : Trimmed (joinWords [writeAll parts]) ∧ joinWords [writeAll parts] ≠ [] := by
      rw [joinWords_singleton]
      exact ⟨htrim, writeAll_ne_nil hne fun part hp => (hparts part hp).written.nonempty⟩
    refine readBody_call (by simp [kinds]) hargs (fun nested hr hne' => ?_) hr
    simp only [readKind, hne']
    exact congrArg (command <$> ·)
      (nested_unquote hr ⟨hne, hsep, hparts⟩ htrim (joinWords_singleton _))
  | @findPackageShare parts hne hsep hparts =>
    have hd : NormalList .list parts := ⟨hne, hsep, hparts⟩
    obtain rfl := hbody "find-pkg-share" [writeAll parts] rfl
    refine readBody_words (by simp [kinds]) (by simp) (by simpa using hd.word)
      (fun nested hr hne => ?_) hr
    simp only [readKind, hne]
    exact congrArg (findPackageShare <$> ·)
      (nested_unquote hr hd.inCommand hd.word.trimmed (joinWords_singleton _))
  | @pathJoin parts hne hparts =>
    obtain rfl := hbody "path-join" (writeEach parts) rfl
    refine readBody_words (by simp [kinds]) (by simpa [writeEach_eq] using hne) (writeEach_word hparts)
      (fun nested hr hne => ?_) hr
    simp only [readKind, hne]
    exact congrArg (pathJoin <$> ·) (readOperands_back hr hparts rfl)
  | @select condition cases default hcondition hkeys hcases hdefault hsome =>
    have hentries := forall_entries hkeys hcases hdefault
    obtain rfl := hbody "select" (write condition :: (entries cases default).map caseWord)
      (by rw [write, writeCases_append])
    refine readBody_words (by simp [kinds]) (by simp) (writeSelect_word hcondition hentries)
      (fun nested hr hne => ?_) hr
    simp only [readKind, hne]
    refine (readSelect_cases hr hcondition hentries (entries_ne_nil hsome) rfl).trans ?_
    rw [selectorOf_entries condition hkeys default]

/-- By induction on the bound of the lengths, as the reader recurses on it. -/
theorem readWithin_back (limit : Nat) {parts : List Substitution} (h : NormalList .command parts)
    {cs : List Char} (hlt : cs.length < limit) (hcs : cs = writeAll parts) :
    readWithin limit cs hlt = .ok parts := by
  induction limit generalizing parts cs with
  | zero => exact absurd hlt (Nat.not_lt_zero _)
  | succ limit ih =>
    have hne : cs.isEmpty = false := by
      rw [hcs, List.isEmpty_eq_false_iff]
      exact writeAll_ne_nil h.nonempty fun part hp => (h.normal part hp).written.nonempty
    have hpieces : pieces cs = parts.map piece := by
      rw [hcs, pieces_writeAll h.separate h.normal]
    have hid : parts.map id = parts := List.map_id parts
    rw [readWithin, hne, ← hid]
    refine mapM_attach_ok hpieces fun e he hmem => ?_
    cases ht : e.isText with
    | true =>
      obtain ⟨s, rfl⟩ := exists_of_isText ht
      exact congrArg (fun s => Except.ok (text s)) String.ofList_toList
    | false =>
      obtain ⟨body, hb⟩ : ∃ body, piece e = .body body := ⟨_, piece_of_isText ht⟩
      revert hmem
      rw [hb]
      intro hmem
      exact readBody_back ((h.normal e he).of_command ht) ht hb fun ps hps ds _ hds => ih hps _ hds

/-- Every list of expressions in normal form is read back from its text. -/
theorem read_written {parts : List Substitution} (h : NormalList .list parts) :
    read (String.ofList (writeAll parts)) = .ok parts := by
  rw [read, readChars]
  exact readWithin_back _ h.inCommand _ String.toList_ofList

/-- A selector in a path, with a command and an environment variable inside. -/
def configSelector : Substitution :=
  .select ⟨.argument "mode", [("fast", .concat [.text "f", .env "RATE" (some [.text "30"])])],
    some (.command [.text "tr a ", .argument "mode", .text " b"])⟩

def configPath : List Substitution :=
  [.pathJoin [.findPackageShare [.text "camera"], .text "config"], .text "/", configSelector]

theorem configSelector_normal : Normal .list configSelector := by
  have hmode : Normal .list (.argument "mode") := .argument (by decide)
  have hrate : Normal .list (.env "RATE" (some [.text "30"])) :=
    .envOr (by decide) (by simp) (by decide) (by simpa using .text (by decide))
  have hfast : Normal .operand (.concat [.text "f", .env "RATE" (some [.text "30"])]) :=
    .concat (by simp) (by decide) (by simpa using ⟨.text (by decide), hrate⟩)
  have hcommand : Normal .list (.command [.text "tr a ", .argument "mode", .text " b"]) :=
    .command (by simp) (by decide)
      (by simpa using ⟨.spaced (by decide), .inCommand hmode, .spaced (by decide)⟩)
      (by constructor <;> rintro _ ⟨⟩ <;> decide)
  exact .select (.alone hmode) (by simpa using ⟨by decide, by decide⟩) (by simpa using hfast)
    (by simpa using .alone hcommand) (.inl (by simp))

theorem configPath_normal : NormalList .list configPath where
  nonempty := by simp [configPath]
  separate := by decide
  normal := by
    have hpackage : Normal .list (.findPackageShare [.text "camera"]) :=
      .findPackageShare (by simp) (by decide) (by simpa using .text (by decide))
    have hpath : Normal .list (.pathJoin [.findPackageShare [.text "camera"], .text "config"]) :=
      .pathJoin (by simp) (by simpa using ⟨.alone hpackage, .alone (.text (by decide))⟩)
    simpa [configPath] using ⟨hpath, .text (by decide), configSelector_normal⟩

theorem read_configPath :
    read ("$(path-join $(find-pkg-share camera) config)/" ++
      "$(select $(var mode) fast=f$(env RATE 30) *=$(command tr a $(var mode) b))") =
        .ok configPath := by
  have htext : String.ofList (writeAll configPath) =
      "$(path-join $(find-pkg-share camera) config)/" ++
        "$(select $(var mode) fast=f$(env RATE 30) *=$(command tr a $(var mode) b))" := by
    decide +kernel
  rw [← htext]
  exact read_written configPath_normal

end LaunchPlan.Substitution
