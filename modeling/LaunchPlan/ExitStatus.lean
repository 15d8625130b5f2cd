/-!
# How a program ended
-/

namespace LaunchPlan

/-- The end of a program: an exit code, the signal that killed it, or neither. -/
inductive ExitStatus
  | exited (code : Nat)
  | signaled (signal : Nat)
  | unknown
  deriving DecidableEq, Repr, Inhabited

namespace ExitStatus

def code? : ExitStatus → Option Nat
  | exited code => some code
  | _ => none

def signal? : ExitStatus → Option Nat
  | signaled signal => some signal
  | _ => none

def describe : ExitStatus → String
  | exited code => "exit code " ++ toString code
  | signaled signal => "signal " ++ toString signal
  | unknown => "unknown status"

def isSuccess (status : ExitStatus) : Bool :=
  status = exited 0

/-- The status in a wait word: bits 0 to 6 hold the signal, bits 8 to 15 the exit code. A stopped
or continued program has neither ended by a code nor by a signal. -/
def ofWaitWord (word : Int) : ExitStatus :=
  let signal := (word % 128).toNat
  if signal = 0 then exited (word / 256 % 256).toNat
  else if signal = 127 then unknown
  else signaled signal

end ExitStatus

end LaunchPlan
