/-!
# Two makes of a utility

`echo`, `printf` and `test` exist twice: built into the shell, and as programs.
The two differ in details of what they accept and how they complain.
-/

namespace LaunchPlan.Utility

inductive Style
  /-- Built into the shell. -/
  | builtin
  /-- A program of its own. -/
  | program
  deriving DecidableEq, Repr

end LaunchPlan.Utility
