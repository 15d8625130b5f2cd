import LaunchPlan.Files
import LaunchPlan.Shell.Arithmetic
import LaunchPlan.Shell.State

/-!
# Expanding words

The parts of a word are expanded from left to right into pieces of text. The
pieces are then split into fields where they come from expansions, and fields that
are patterns are replaced by the names of the files they match.
-/

namespace LaunchPlan.Shell

/-- What one step of expanding comes to. -/
inductive Expanded
  | done (pieces : List Piece)
  | more (expansion : Expansion) (shell : State)
  /-- The output of a script is needed. -/
  | output (body : List Command) (quoted : Bool) (expansion : Expansion)
  | failed (message : Octets)

namespace Piece

def ofValue (quoted : Bool) (value : Octets) : Piece :=
  .text value (if quoted then .quoted else .expanded)

/-- All positional parameters, each a field of its own. -/
def ofPositional (quoted : Bool) : List Octets → List Piece
  | [] => if quoted then [.absent] else []
  | [value] => [ofValue quoted value]
  | value :: values => ofValue quoted value :: .cut :: ofPositional quoted values

/-- The text of pieces that make one field. -/
def joined : List Piece → Octets
  | [] => []
  | .text octets _ :: pieces => octets ++ joined pieces
  | .cut :: pieces => ' ' :: joined pieces
  | .absent :: pieces => joined pieces

/-- The text of pieces, knowing what is quoted. -/
def marked : List Piece → Marked
  | [] => []
  | .text octets origin :: pieces => octets.map (fun c => (c, decide (origin = .quoted))) ++ marked pieces
  | .cut :: pieces => (' ', true) :: marked pieces
  | .absent :: pieces => marked pieces

end Piece

namespace Expansion

def add (e : Expansion) (pieces : List Piece) : Expansion :=
  { e with done := e.done ++ pieces }

/-- Expands a word before going on; its pieces do not join those done so far. -/
def apart (e : Expansion) (word : Word) (after : Work) : Expansion :=
  { todo := word.map (fun part => .part part true) ++ after :: e.todo }

/-- Expands a word in place. -/
def inPlace (e : Expansion) (word : Word) : Expansion :=
  { e with todo := word.map (fun part => .part part true) ++ e.todo }

end Expansion

namespace State

/-- The name in a message. -/
def said (name : Octets) (message : String) : Octets :=
  name ++ ": ".toList ++ message.toList

/-- The value of a parameter; with `empty`, an empty one counts as unset. -/
def setValue? (s : State) (name : Octets) (empty : Bool) : Option Octets :=
  (s.parameter? name).filter fun value => !(empty && value.isEmpty)

/-- Adds the value of a parameter. -/
def addValue (s : State) (e : Expansion) (name : Octets) (quoted : Bool) : Expanded :=
  if name = ['@'] || (name = ['*'] && !quoted) then
    .more (e.add (Piece.ofPositional quoted s.positional)) s
  else
    match s.parameter? name with
    | some value => .more (e.add [Piece.ofValue quoted value]) s
    | none =>
      if s.isOn 'u' && name ≠ ['*'] then .failed (said name "parameter not set")
      else .more (e.add (if quoted then [.text [] .quoted] else [])) s

/-- Goes on with a parameter and what is made of it. -/
def expandParameter (s : State) (e : Expansion) (name : Octets) (quoted : Bool) :
    Change → Expanded
  | .keep => s.addValue e name quoted
  | .length =>
    match s.parameter? name with
    | some value => .more (e.add [Piece.ofValue quoted (decimalText value.length)]) s
    | none =>
      if s.isOn 'u' then .failed (said name "parameter not set")
      else .more (e.add [Piece.ofValue quoted ['0']]) s
  | .default empty word =>
    match s.setValue? name empty with
    | some _ => s.addValue e name quoted
    | none => .more (e.inPlace word) s
  | .alternative empty word =>
    match s.setValue? name empty with
    | some _ => .more (e.inPlace word) s
    | none => .more (e.add (if quoted then [.text [] .quoted] else [])) s
  | .assign empty word =>
    match s.setValue? name empty with
    | some _ => s.addValue e name quoted
    | none => .more (e.apart word (.assign name quoted e.done)) s
  | .complain empty word =>
    match s.setValue? name empty with
    | some _ => s.addValue e name quoted
    | none => .more (e.apart word (.complain name e.done)) s
  | .trim atEnd longest pattern =>
    match s.parameter? name with
    | some value => .more (e.apart pattern (.trim atEnd longest value quoted e.done)) s
    | none => s.addValue e name quoted
  | .faulty => .failed "Bad substitution".toList

/-- The text at the start of a word with a leading tilde replaced. -/
def withHome (s : State) (first : Bool) (octets : Octets) : Octets :=
  match octets with
  | '~' :: rest =>
    if first && (rest.isEmpty || rest.head? = some '/') then
      (s.value? "HOME".toList).getD ['~'] ++ rest
    else octets
  | _ => octets

/-- One step of expanding. -/
def expandStep (s : State) (e : Expansion) : Expanded :=
  match e.todo with
  | [] => .done e.done
  | work :: todo =>
    let rest := { e with todo }
    match work with
    | .part (.text octets quoted) inner =>
      if quoted then .more (rest.add [.text octets .quoted]) s
      else
        let octets := s.withHome (e.done.isEmpty && !inner) octets
        .more (rest.add [.text octets (if inner then .expanded else .literal)]) s
    | .part (.parameter name change quoted) _ => s.expandParameter rest name quoted change
    | .part (.output body quoted) _ => .output body quoted rest
    | .part (.sum expression quoted) _ => .more (rest.apart expression (.evaluate quoted e.done)) s
    | .assign name quoted outer =>
      let value := Piece.joined e.done
      if s.isReadOnly name then .failed (said name "is read only")
      else .more { rest with done := outer ++ [Piece.ofValue quoted value] } (s.assign name value)
    | .complain name _ =>
      let message := Piece.joined e.done
      .failed (name ++ ": ".toList ++
        if message.isEmpty then "parameter not set".toList else message)
    | .trim atEnd longest value quoted outer =>
      let pattern := Pattern.ofMarked (Piece.marked e.done)
      .more { rest with done := outer ++ [Piece.ofValue quoted (pattern.trim atEnd longest value)] } s
    | .evaluate quoted outer =>
      let text := Piece.joined e.done
      match Arithmetic.evaluate s.value? text with
      | .error fault => .failed (fault.message text)
      | .ok (n, assigned) =>
        let s := assigned.reverse.foldl (fun s (name, value) => s.assign name value) s
        .more { rest with done := outer ++ [Piece.ofValue quoted (toString n).toList] } s

end State

/-! ## Fields -/

/-- The fields so far: those complete, the one being made, and what is known of it. -/
structure Splitting where
  complete : List Marked := []
  current : Option Marked := none
  /-- The last field was ended by a blank, so a separator may still belong to that end. -/
  blankEnded : Bool := false
  absent : Bool := false

namespace Splitting

def close (p : Splitting) : Splitting :=
  match p.current with
  | none => { p with absent := false }
  | some field =>
    if field.isEmpty && p.absent then { p with current := none, absent := false }
    else { p with complete := p.complete ++ [field], current := none, absent := false }

def append (p : Splitting) (text : Marked) : Splitting :=
  { p with current := some (p.current.getD [] ++ text), blankEnded := false }

def isBlankSeparator (c : Char) : Bool :=
  c = ' ' || c = '\t' || c = '\n'

/-- One character that comes from an expansion. -/
def character (separators : Octets) (p : Splitting) (c : Char) : Splitting :=
  if c ∈ separators then
    if isBlankSeparator c then
      if p.current.isSome then { p.close with blankEnded := true } else p
    else if p.current.isSome then { p.close with blankEnded := false }
    else if p.blankEnded then { p with blankEnded := false }
    else { p with complete := p.complete ++ [[]] }
  else p.append [(c, false)]

def piece (separators : Octets) (p : Splitting) : Piece → Splitting
  | .text octets .quoted => p.append (octets.map fun c => (c, true))
  | .text octets .literal =>
    if octets.isEmpty then p else p.append (octets.map fun c => (c, false))
  | .text octets .expanded => octets.foldl (character separators) p
  | .cut => p.close
  | .absent => { p with absent := true }

end Splitting

/-- The fields of pieces. -/
def fieldsOf (separators : Octets) (pieces : List Piece) : List Marked :=
  (pieces.foldl (Splitting.piece separators) {}).close.complete

/-! ## Patterns of file names -/

/-- The names in the directory at a location, in order. -/
def namesIn (tree : Tree) (location : Location) : List Octets :=
  let inside := tree.nodes.filterMap fun (l, _) =>
    if l.length = location.length + 1 && l.dropLast = location then
      l.getLast?.map Octets.ofText
    else none
  inside.mergeSort Octets.precedes

/-- The steps of a pattern that is a path. -/
def splitSteps (cs : Marked) : List Marked :=
  cs.splitOnP fun (c, _) => c = '/'

/-- The paths that match the steps of a pattern, below a directory whose path so far is `path`. -/
def matchSteps (tree : Tree) : Octets → List Marked → List Octets
  | path, [] => [path]
  | path, step :: steps =>
    let plain := step.map Prod.fst
    let joined (name : Octets) : Octets := path ++ name ++ if steps.isEmpty then [] else ['/']
    let present (name : Octets) : Bool :=
      name.isEmpty || tree.exists? (path ++ name).toText
    if Pattern.isPattern step then
      let directory := if path.isEmpty then "." else path.toText
      match tree.locate directory with
      | .error _ => []
      | .ok location =>
        let pattern := Pattern.ofMarked step
        let hidden (name : Octets) : Bool := name.head? = some '.' && plain.head? ≠ some '.'
        let names := (namesIn tree location).filter fun n => pattern.accepts n && !hidden n
        names.flatMap fun n => matchSteps tree (joined n) steps
    else if present plain then matchSteps tree (joined plain) steps
    else []

/-- The file names a field stands for, or the field itself if there are none. -/
def expandNames (tree : Tree) (field : Marked) : List Octets :=
  if Pattern.isPattern field then
    match matchSteps tree [] (splitSteps field) with
    | [] => [field.map Prod.fst]
    | names => names
  else [field.map Prod.fst]

/-- The fields that pieces come to. -/
def State.fields (s : State) (tree : Tree) (pieces : List Piece) : List Octets :=
  let fields := fieldsOf s.separators pieces
  if s.isOn 'f' then fields.map (List.map Prod.fst) else fields.flatMap (expandNames tree)

end LaunchPlan.Shell
