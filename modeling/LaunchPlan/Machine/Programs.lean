import LaunchPlan.Files

/-!
# The programs of a machine
-/

namespace LaunchPlan.Machine

/-- The programs that a machine provides. -/
def programs : List String :=
  ["sh", "echo", "printf", "printenv", "cat", "true", "false", "test", "[", "sleep", "touch"]

/-- Puts a program where programs are looked for. -/
def install (tree : Tree) (name : String) : Tree :=
  (tree.put ["usr", "bin", name] (.program name)).put ["bin", name] (.program name)

/-- The devices of a machine. -/
def devices : List (String × Node) :=
  [("null", .nullDevice), ("stdin", .descriptor 0), ("stdout", .descriptor 1),
    ("stderr", .descriptor 2)]

/-- The files of a machine that holds its programs and one empty directory, the current one. -/
def initialTree (current : Location) : Tree :=
  let tree := [current, ["usr", "bin"], ["bin"], ["dev"]].foldl Tree.makeDirectories { current }
  devices.foldl (fun t (name, node) => t.put ["dev", name] node) (programs.foldl install tree)

end LaunchPlan.Machine
