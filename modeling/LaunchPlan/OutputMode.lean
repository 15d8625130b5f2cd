/-!
# Where the output of a process goes
-/

namespace LaunchPlan

inductive OutputMode
  /-- Both streams go on to the terminal. -/
  | screen
  /-- Standard output goes to the log, standard error to the terminal. -/
  | log
  deriving DecidableEq, Repr, Inhabited

namespace OutputMode

/-- The mode a text names. -/
def ofText? (text : String) : Option OutputMode :=
  if text = "screen" || text = "both" then some screen
  else if text = "log" then some log
  else none

/-- What is said of a text that names no mode. -/
def unknown (text : String) : String :=
  "unknown output mode '" ++ text ++ "'"

def text : OutputMode → String
  | screen => "screen"
  | log => "log"

@[simp] theorem ofText?_text (mode : OutputMode) : ofText? mode.text = some mode := by
  cases mode <;> rfl

end OutputMode

end LaunchPlan
