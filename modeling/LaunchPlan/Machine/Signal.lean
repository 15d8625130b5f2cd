/-!
# Signals
-/

namespace LaunchPlan.Machine.Signal

def interrupt : Nat := 2

def quit : Nat := 3

def kill : Nat := 9

def brokenPipe : Nat := 13

def terminate : Nat := 15

/-- The names of the signals from 1 on. -/
def names : List String :=
  ["HUP", "INT", "QUIT", "ILL", "TRAP", "ABRT", "BUS", "FPE", "KILL", "USR1", "SEGV", "USR2",
    "PIPE", "ALRM", "TERM", "STKFLT", "CHLD", "CONT", "STOP", "TSTP", "TTIN", "TTOU", "URG",
    "XCPU", "XFSZ", "VTALRM", "PROF", "WINCH", "IO", "PWR", "SYS"]

/-- How the end by a signal is reported. -/
def descriptions : List String :=
  ["Hangup", "Interrupt", "Quit", "Illegal instruction", "Trace/breakpoint trap", "Aborted",
    "Bus error", "Floating point exception", "Killed", "User defined signal 1",
    "Segmentation fault", "User defined signal 2", "Broken pipe", "Alarm clock", "Terminated",
    "Stack fault", "Child exited", "Continued", "Stopped (signal)", "Stopped", "Stopped (tty input)",
    "Stopped (tty output)", "Urgent I/O condition", "CPU time limit exceeded",
    "File size limit exceeded", "Virtual timer expired", "Profiling timer expired",
    "Window changed", "I/O possible", "Power failure", "Bad system call"]

def description (signal : Nat) : String :=
  (descriptions[signal - 1]?).getD ("Unknown signal " ++ toString signal)

/-- The number of a signal, given by name, with or without `SIG`, or by number. `EXIT` is 0. -/
def ofName? (name : String) : Option Nat :=
  let upper := String.ofList (name.toList.map Char.toUpper)
  let short := if "SIG".toList.isPrefixOf upper.toList then String.ofList (upper.toList.drop 3) else upper
  match name.toNat? with
  | some n => if n < 65 then some n else none
  | none =>
    if upper = "EXIT" then some 0
    else (names.findIdx? (· = short)).map (· + 1)

/-- Whether a program that does not ask for a signal goes on when it arrives. -/
def isHarmless (signal : Nat) : Bool :=
  signal = 0 || (17 ≤ signal && signal ≤ 23) || signal = 28

end LaunchPlan.Machine.Signal
