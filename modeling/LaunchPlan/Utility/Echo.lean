import LaunchPlan.Utility.Escape

/-!
# The utility `echo`

The one built into the shell always expands escapes; the program does so when it
is told to.
-/

namespace LaunchPlan.Utility.Echo

/-- Escapes expanded in each text, separated by blanks and followed by `last`, up to a `\c`. -/
def escaped (style : Style) (last : Octets) : List Octets → Octets
  | [] => last
  | text :: texts =>
    let (out, stop) := escapes style text
    if stop then out
    else out ++ if texts.isEmpty then last else ' ' :: escaped style last texts

structure Options where
  newline : Bool := true
  escapes : Bool := false

/-- The options that a word of letters behind a minus sign sets. -/
def option? (o : Options) (word : Octets) : Option Options :=
  match word with
  | '-' :: c :: letters =>
    if (c :: letters).all (· ∈ ['n', 'e', 'E']) then
      some ((c :: letters).foldl (fun o c =>
        if c = 'n' then { o with newline := false } else { o with escapes := c = 'e' }) o)
    else none
  | _ => none

def takeOptions (o : Options) : List Octets → Options × List Octets
  | [] => (o, [])
  | word :: words =>
    match option? o word with
    | some o => takeOptions o words
    | none => (o, word :: words)

/-- What is printed for these arguments. -/
def print : Style → List Octets → Octets
  | .builtin, ['-', 'n'] :: texts => escaped .builtin [] texts
  | .builtin, texts => escaped .builtin ['\n'] texts
  | .program, words =>
    let (o, texts) := takeOptions {} words
    let last := if o.newline then ['\n'] else []
    if o.escapes then escaped .program last texts else [' '].intercalate texts ++ last

end LaunchPlan.Utility.Echo
