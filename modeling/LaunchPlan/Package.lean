import LaunchPlan.Environment
import LaunchPlan.Path

/-!
# Where packages are installed

Packages are looked up below the entries of a search path, in order. Whether a
path exists is asked of `present`.
-/

namespace LaunchPlan.Package

/-- The variable whose entries are searched. -/
def searchVariable : String := "AMENT_PREFIX_PATH"

/-- The share directory of a package below an entry of the search path. -/
def shareBelow (entry package : String) : String :=
  Path.join (Path.join entry "share") package

/-- A program of a package below an entry of the search path. -/
def programBelow (entry package executable : String) : String :=
  Path.join (Path.join (Path.join entry "lib") package) executable

/-- The share directory that comes with the distribution. -/
def distributionShare (distribution package : String) : String :=
  "/opt/ros/" ++ distribution ++ "/share/" ++ package

/-- The share directory of a package: below the first entry that has it, else the one that comes
with the distribution. -/
def share? (present : String → Bool) (env : Environment) (package : String) : Option String :=
  ((env.searchPath searchVariable).map fun entry => shareBelow entry package).find? present <|>
    ((env.get? "ROS_DISTRO").map fun d => distributionShare d package).filter present

/-- A program of a package: below the first entry that has it. -/
def program? (present : String → Bool) (env : Environment) (package executable : String) :
    Option String :=
  ((env.searchPath searchVariable).map fun entry =>
    programBelow entry package executable).find? present

end LaunchPlan.Package
