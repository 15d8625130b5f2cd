import LaunchPlan.CommandLine.Options
import LaunchPlan.Proofs.LastValues

/-!
# Values given in a call

A value for an argument is written with `:=` or with `=`. What is cut is the first `:=`, wherever it
stands, and only without one the first `=`. So a value with `:=` inside is read as it is written
behind `:=`, and is cut itself behind `=`.
-/

namespace LaunchPlan.CommandLine

section Cutting

variable {cs ds before after : List Char}

/-- The text has `:=` somewhere. -/
def HasAssignment (cs : List Char) : Prop :=
  [':', '='] <:+: cs

instance : DecidablePred HasAssignment :=
  fun cs => inferInstanceAs (Decidable ([':', '='] <:+: cs))

theorem hasAssignment_cons_of_ne {c : Char} (hc : c ≠ ':') :
    HasAssignment (c :: cs) ↔ HasAssignment cs := by
  simp [HasAssignment, List.infix_cons_iff, Ne.symm hc]

theorem hasAssignment_append (h : ':' ∉ cs) : HasAssignment (cs ++ ds) ↔ HasAssignment ds := by
  induction cs with
  | nil => rfl
  | cons c cs ih =>
    have hc : c ≠ ':' := (List.ne_of_not_mem_cons h).symm
    rw [List.cons_append, hasAssignment_cons_of_ne hc, ih (List.not_mem_of_not_mem_cons h)]

/-- The first `:=` of the text stands between `before` and `after`. -/
structure FirstAssignment (cs before after : List Char) : Prop where
  split : cs = before ++ ':' :: '=' :: after
  first : ¬ HasAssignment (before ++ [':'])

theorem exists_firstAssignment (h : HasAssignment cs) :
    ∃ before after, FirstAssignment cs before after := by
  induction cs with
  | nil => simp [HasAssignment] at h
  | cons c cs ih =>
    by_cases hhere : [':', '='] <+: c :: cs
    · obtain ⟨after, hafter⟩ := hhere
      exact ⟨[], after, hafter.symm, by decide⟩
    · obtain ⟨before, after, hsplit, hfirst⟩ := ih ((List.infix_cons_iff.1 h).resolve_left hhere)
      refine ⟨c :: before, after, by rw [hsplit]; rfl, fun hcons => ?_⟩
      -- No `:=` begins in front of the first one of the rest.
      have hprefix : c :: (before ++ [':']) <+: c :: cs := ⟨'=' :: after, by simp [hsplit]⟩
      rcases List.infix_cons_iff.1 hcons with hbegin | hinside
      · exact hhere (hbegin.trans hprefix)
      · exact hfirst hinside

theorem cutAtAssignment_of_not (h : ¬ HasAssignment cs) : cutAtAssignment cs = none := by
  fun_induction cutAtAssignment cs with
  | case1 => rfl
  | case2 cs => exact absurd (List.prefix_append [':', '='] cs).isInfix h
  | case3 c cs _ ih => rw [ih fun hcs => h (List.infix_cons hcs), Option.map_none]

theorem FirstAssignment.cut (h : FirstAssignment cs before after) :
    cutAtAssignment cs = some (before, after) := by
  obtain ⟨rfl, hfirst⟩ := h
  induction before with
  | nil => rfl
  | cons c before ih =>
    have hrest := ih fun hbefore => hfirst (List.infix_cons hbefore)
    rw [List.cons_append, cutAtAssignment, hrest]
    · rfl
    · rintro rest rfl hbegin
      cases before with
      | nil => simp at hbegin
      | cons d before =>
        obtain rfl : d = '=' := (List.cons.inj hbegin).1
        exact hfirst (List.prefix_append [':', '='] _).isInfix

theorem cutAtEquals_append (h : '=' ∉ before) (after : List Char) :
    cutAtEquals (before ++ '=' :: after) = some (before, after) := by
  induction before with
  | nil => rfl
  | cons c before ih =>
    have hc : c ≠ '=' := (List.ne_of_not_mem_cons h).symm
    rw [List.cons_append, cutAtEquals, if_neg hc, ih (List.not_mem_of_not_mem_cons h)]
    rfl

theorem override?_of_cut {text : String} {name value : List Char} (hne : name ≠ [])
    (h : (cutAtAssignment text.toList <|> cutAtEquals text.toList) = some (name, value)) :
    override? text = some (String.ofList name, String.ofList value) := by
  rw [override?, h]
  cases name with
  | nil => exact absurd rfl hne
  | cons c name => rfl

theorem override?_of_assignment {text : String} (hne : before ≠ [])
    (h : FirstAssignment text.toList before after) :
    override? text = some (String.ofList before, String.ofList after) := by
  refine override?_of_cut hne ?_
  rw [h.cut]
  rfl

theorem override?_of_equals {text : String} (hne : before ≠ []) (hbefore : '=' ∉ before)
    (hno : ¬ HasAssignment text.toList) (htext : text.toList = before ++ '=' :: after) :
    override? text = some (String.ofList before, String.ofList after) := by
  refine override?_of_cut hne ?_
  rw [cutAtAssignment_of_not hno, htext, cutAtEquals_append hbefore]
  rfl

end Cutting

/-- What stands between a name and its value. -/
inductive Separator
  | assignment
  | equals
  deriving DecidableEq, Repr

def Separator.text : Separator → String
  | assignment => ":="
  | equals => "="

/-- A value for an argument, as it is given in a call. -/
structure Given where
  name : String
  separator : Separator
  value : String
  deriving DecidableEq, Repr

namespace Given

variable {g : Given}

def text (g : Given) : String :=
  g.name ++ g.separator.text ++ g.value

/-- The name is not empty and has no character of a separator. -/
structure Named (g : Given) : Prop where
  nonempty : g.name ≠ ""
  colon : ':' ∉ g.name.toList
  equals : '=' ∉ g.name.toList

instance : DecidablePred Named :=
  fun g => decidable_of_iff (g.name ≠ "" ∧ ':' ∉ g.name.toList ∧ '=' ∉ g.name.toList)
    ⟨fun ⟨hne, hcolon, hequals⟩ => ⟨hne, hcolon, hequals⟩,
      fun h => ⟨h.nonempty, h.colon, h.equals⟩⟩

/-- The text is cut behind the name. -/
def Whole (g : Given) : Prop :=
  g.separator = .assignment ∨ ¬ HasAssignment g.value.toList

instance : DecidablePred Whole :=
  fun g => inferInstanceAs (Decidable (g.separator = .assignment ∨ _))

/-- The name and the value that the text is read as. -/
inductive ReadAs (g : Given) : String × String → Prop
  | whole : g.Whole → ReadAs g (g.name, g.value)
  /-- Behind `=`, the first `:=` of the value is what is cut. -/
  | moved {before after : List Char} : g.separator = .equals →
      FirstAssignment g.value.toList before after →
      ReadAs g (g.name ++ "=" ++ String.ofList before, String.ofList after)

theorem exists_readAs (g : Given) : ∃ pair, ReadAs g pair := by
  by_cases h : g.Whole
  · exact ⟨_, .whole h⟩
  · obtain ⟨hseparator, hvalue⟩ := not_or.1 h
    obtain ⟨before, after, hfirst⟩ := exists_firstAssignment (not_not.1 hvalue)
    cases hs : g.separator with
    | assignment => exact absurd hs hseparator
    | equals => exact ⟨_, .moved hs hfirst⟩

theorem Named.toList_ne_nil (h : g.Named) : g.name.toList ≠ [] := by
  simpa using h.nonempty

theorem Named.hasAssignment_equals (h : g.Named) (cs : List Char) :
    HasAssignment (g.name.toList ++ '=' :: cs) ↔ HasAssignment cs := by
  rw [hasAssignment_append h.colon, hasAssignment_cons_of_ne (by decide)]

theorem Named.override?_of_whole (h : g.Named) (hwhole : g.Whole) :
    override? g.text = some (g.name, g.value) := by
  cases hs : g.separator with
  | assignment =>
    -- A name without `:` cannot begin the first `:=`.
    have hfirst : FirstAssignment g.text.toList g.name.toList g.value.toList :=
      ⟨by simp [text, hs, Separator.text], (hasAssignment_append h.colon).not.2 (by decide)⟩
    simpa using override?_of_assignment h.toList_ne_nil hfirst
  | equals =>
    have htext : g.text.toList = g.name.toList ++ '=' :: g.value.toList := by
      simp [text, hs, Separator.text]
    have hvalue : ¬ HasAssignment g.value.toList := hwhole.resolve_left (by simp [hs])
    have hno : ¬ HasAssignment g.text.toList := by
      rw [htext, h.hasAssignment_equals]
      exact hvalue
    simpa using override?_of_equals h.toList_ne_nil h.equals hno htext

theorem Named.override? (h : g.Named) {pair : String × String} (hread : g.ReadAs pair) :
    override? g.text = some pair := by
  cases hread with
  | whole hwhole => exact h.override?_of_whole hwhole
  | @moved before after hs hvalue =>
    have htext : g.text.toList = (g.name.toList ++ '=' :: before) ++ ':' :: '=' :: after := by
      simp [text, hs, Separator.text, hvalue.split]
    have hno : ¬ HasAssignment ((g.name.toList ++ '=' :: before) ++ [':']) := by
      rw [List.append_assoc, List.cons_append, h.hasAssignment_equals]
      exact hvalue.first
    have hname : String.ofList (g.name.toList ++ '=' :: before) =
        g.name ++ "=" ++ String.ofList before := String.toList_injective (by simp)
    rw [override?_of_assignment (by simp) ⟨htext, hno⟩, hname]

/-- What a list of given values is read as, one by one. -/
def AllReadAs (gs : List Given) (pairs : List (String × String)) : Prop :=
  List.Forall₂ (fun g pair => CommandLine.override? g.text = some pair ∧ g.ReadAs pair) gs pairs

theorem exists_allReadAs {gs : List Given} (hnamed : ∀ g ∈ gs, g.Named) :
    ∃ pairs, AllReadAs gs pairs := by
  induction gs with
  | nil => exact ⟨[], .nil⟩
  | cons g gs ih =>
    obtain ⟨hg, hgs⟩ := List.forall_mem_cons.1 hnamed
    obtain ⟨pair, hread⟩ := g.exists_readAs
    obtain ⟨pairs, hpairs⟩ := ih hgs
    exact ⟨pair :: pairs, .cons ⟨hg.override? hread, hread⟩ hpairs⟩

theorem ReadAs.eq_of_whole {pair : String × String} (hread : g.ReadAs pair) (hwhole : g.Whole) :
    pair = (g.name, g.value) := by
  cases hread with
  | whole => rfl
  | moved hs hvalue =>
    have hassignment : HasAssignment g.value.toList :=
      ⟨_, _, by rw [hvalue.split, List.append_assoc]; rfl⟩
    exact absurd hassignment (hwhole.resolve_left (by simp [hs]))

theorem AllReadAs.eq_of_whole {gs : List Given} {pairs : List (String × String)}
    (h : AllReadAs gs pairs) (hwhole : ∀ g ∈ gs, g.Whole) :
    pairs = gs.map fun g => (g.name, g.value) := by
  induction h with
  | nil => rfl
  | cons hg _ ih =>
    obtain ⟨hfirst, hrest⟩ := List.forall_mem_cons.1 hwhole
    rw [List.map_cons, hg.2.eq_of_whole hfirst, ih hrest]

end Given

section Calls

variable {o : Options} {file : String} {gs : List Given} {pairs : List (String × String)}

theorem readOperand_override (hfile : o.file = some file) {text : String} {pair : String × String}
    (h : override? text = some pair) :
    readOperand o text = .ok { o with overrides := o.overrides ++ [pair] } := by
  rw [readOperand, hfile]
  simp only [h]

/-- Behind the file, every given value becomes a pair, in the order of the call. -/
theorem foldlM_readOperand (h : Given.AllReadAs gs pairs) (hfile : o.file = some file) :
    (gs.map Given.text).foldlM readOperand o =
      .ok { o with overrides := o.overrides ++ pairs } := by
  induction h generalizing o with
  | nil => simp [pure, Except.pure]
  | @cons g pair gs pairs hg _ ih =>
    rw [List.map_cons, List.foldlM_cons, readOperand_override hfile hg.1]
    have hrest := ih (o := { o with overrides := o.overrides ++ [pair] }) hfile
    rw [List.append_assoc, List.singleton_append] at hrest
    exact hrest

theorem readWords_operand (command : CommandName) {word : String} (h : isOption word = false)
    (words : List String) :
    readWords command none o (word :: words) =
      readOperand o word >>= fun o => readWords command none o words := by
  have hdashes : word ≠ "--" := by
    rintro rfl
    exact absurd h (by decide)
  rw [readWords, if_neg hdashes, if_neg (by simp [h])]

/-- Words that are no options are read as they would be behind `--`. -/
theorem readWords_operands (command : CommandName) {words : List String}
    (hwords : ∀ word ∈ words, isOption word = false) :
    readWords command none o words = words.foldlM readOperand o := by
  induction words generalizing o with
  | nil => rfl
  | cons word words ih =>
    obtain ⟨hword, hrest⟩ := List.forall_mem_cons.1 hwords
    rw [readWords_operand command hword, List.foldlM_cons]
    exact bind_congr fun o => ih hrest

theorem readWords_file (command : CommandName) (words : List String) (hne : file ≠ "")
    (hfile : isOption file = false) :
    readWords command none {} (file :: words) =
      readWords command none { file := some file } words := by
  have hread : readOperand {} file = .ok { file := some file } := by simp [readOperand, hne]
  rw [readWords_operand command hfile, hread]
  rfl

theorem readCall_of_readWords {word : String} {command : CommandName} {words : List String}
    (hcommand : commandName? word = some command) (h : readWords command none {} words = .ok o)
    (hfile : o.file = some file) : readCall {} (word :: words) = .ok ⟨command, o⟩ := by
  have hword : isOption word = false := by
    unfold commandName? at hcommand
    split at hcommand <;> first | decide | cases hcommand
  simp [readCall, hword, hcommand, h, hfile, bind, Except.bind, pure, Except.pure]

end Calls

/-- The values for arguments that are given in a call are read one by one, and the launch is
composed with the last of each name. A value is read as it is written unless `:=` stands in it and
`=` in front of it. -/
theorem given_values_read (gs : List Given) (hnamed : ∀ g ∈ gs, g.Named) :
    ∃ pairs, Given.AllReadAs gs pairs ∧
      ((∀ g ∈ gs, g.Whole) → pairs = gs.map fun g => (g.name, g.value)) ∧
      ∀ word command file, commandName? word = some command → file ≠ "" → isOption file = false →
        ∃ options : Options, options.overrides = pairs ∧
          readCall {} (word :: file :: "--" :: gs.map Given.text) = .ok ⟨command, options⟩ ∧
          ((∀ g ∈ gs, isOption g.text = false) →
            readCall {} (word :: file :: gs.map Given.text) = .ok ⟨command, options⟩) ∧
          ∀ name value, options.bindings.get? name = some value ↔
            Bindings.ComesLast pairs name value := by
  obtain ⟨pairs, hpairs⟩ := Given.exists_allReadAs hnamed
  refine ⟨pairs, hpairs, hpairs.eq_of_whole, fun word command file hcommand hne hfile => ?_⟩
  have hoperands : (gs.map Given.text).foldlM readOperand { file := some file } =
      .ok { file := some file, overrides := pairs } := foldlM_readOperand hpairs rfl
  refine ⟨{ file := some file, overrides := pairs }, rfl, ?_, fun hoptions => ?_,
    fun name value => (Bindings.mergeOf_ofPairs pairs).get?_iff⟩
  · refine readCall_of_readWords hcommand ?_ rfl
    rw [readWords_file command _ hne hfile, readWords, if_pos rfl, hoperands]
  · refine readCall_of_readWords hcommand ?_ rfl
    rw [readWords_file command _ hne hfile, readWords_operands, hoperands]
    simpa using hoptions

/-- Two values for one argument, the second with `:=` inside. -/
def mapped : List Given :=
  [⟨"map", .equals, "http://a=b"⟩, ⟨"map", .assignment, "x:=y"⟩]

theorem mapped_read :
    (∀ g ∈ mapped, g.Named) ∧
      ∃ options, readCall {} ["run", "m.xml", "map=http://a=b", "map:=x:=y"] = .ok ⟨.run, options⟩ ∧
        options.bindings.get? "map" = some "x:=y" := by
  have hnamed : ∀ g ∈ mapped, g.Named := by decide +kernel
  have htexts : mapped.map Given.text = ["map=http://a=b", "map:=x:=y"] := by decide +kernel
  obtain ⟨pairs, -, hwhole, hcall⟩ := given_values_read mapped hnamed
  obtain ⟨options, -, -, hplain, hlast⟩ :=
    hcall "run" .run "m.xml" rfl (by decide +kernel) (by decide +kernel)
  have hpairs : pairs = [("map", "http://a=b"), ("map", "x:=y")] := hwhole (by decide +kernel)
  rw [htexts] at hplain
  exact ⟨hnamed, options, hplain (by decide +kernel),
    (hlast _ _).2 ⟨[("map", "http://a=b")], [], hpairs, by simp⟩⟩

/-- Behind `=`, a value with `:=` inside is not read as it is written. -/
theorem remap_cut_in_value :
    override? "remap=scan:=laser" = some ("remap=scan", "laser") ∧
      ¬ ∀ g : Given, g.Named → override? g.text = some (g.name, g.value) := by
  refine ⟨by decide +kernel, fun h => ?_⟩
  exact absurd (h ⟨"remap", .equals, "scan:=laser"⟩ (by decide +kernel)) (by decide +kernel)

end LaunchPlan.CommandLine
