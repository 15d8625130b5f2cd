import LaunchPlan.OutputMode
import LaunchPlan.Text.Octets

/-!
# Output of started processes

What a process writes is taken apart into lines, and each line is passed on with
the name of the process in front.
-/

namespace LaunchPlan

inductive Destination
  | output
  | errors
  | debug
  deriving DecidableEq, Repr

/-- What a process writes to its output, or to its errors, and has not been passed on. -/
structure LineStream where
  pipe : Nat
  name : String
  destination : Destination
  rest : Octets := []
  isOpen : Bool := true

/-- A line on its way. -/
structure ForwardedLine where
  destination : Destination
  text : String
  deriving DecidableEq, Repr

namespace Destination

/-- Where the output of a process goes: to the output only if it is to be seen on the screen. -/
def ofOutput : OutputMode → Destination
  | .screen => output
  | .log => debug

end Destination

namespace LineStream

/-- The complete lines of a text, without their ends, and what follows them. -/
def cutLines : Octets → List Octets × Octets
  | [] => ([], [])
  | c :: cs =>
    let (lines, rest) := cutLines cs
    if c = '\n' then ([] :: lines, rest)
    else
      match lines with
      | [] => ([], c :: rest)
      | line :: lines => ((c :: line) :: lines, rest)

/-- A line without the return at its end. -/
def dropReturn (line : Octets) : Octets :=
  if line.getLast? = some '\r' then line.dropLast else line

def tagged (s : LineStream) (line : String) : ForwardedLine :=
  ⟨s.destination, "[" ++ s.name ++ "] " ++ line⟩

/-- Passes lines on, up to the first that is no text; that one closes the stream. -/
def forwardLines (s : LineStream) : List Octets → List ForwardedLine × LineStream
  | [] => ([], s)
  | line :: lines =>
    match Octets.toText? line with
    | none => ([], { s with rest := [], isOpen := false })
    | some text =>
      let (more, s) := s.forwardLines lines
      (s.tagged text :: more, s)

/-- Takes what has been written. -/
def feed (s : LineStream) (octets : Octets) : List ForwardedLine × LineStream :=
  let (lines, rest) := cutLines (s.rest ++ octets)
  { s with rest }.forwardLines (lines.map dropReturn)

/-- Takes note that nothing more will be written. A line without an end is passed on as it is. -/
def close (s : LineStream) : List ForwardedLine × LineStream :=
  let (lines, s) := s.forwardLines (if s.rest.isEmpty then [] else [s.rest])
  (lines, { s with rest := [], isOpen := false })

end LineStream

end LaunchPlan
