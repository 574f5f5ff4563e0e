import QueryDesk.Host.Basic

/-!
# Executables

A program named without a directory is looked for in the directories of the
search path, in their order. A name with a directory, and one that is not found,
stands for itself.

## Main definitions

* `Host.searchPath`: The directories programs are looked for in.
* `Host.findExecutable`: The path of a program by its name.
-/

namespace QueryDesk

namespace Host

/-- The directories programs are looked for in. An environment without a search
    path has the system's own; an empty one has none. -/
def searchPath (host : Host) : List Text :=
  let path := (host.setting? "PATH").getD "/bin:/usr/bin"
  if path.isEmpty then [] else Text.splitOn ':' path

/-- There is a file at the path that may be executed. -/
def canExecute (host : Host) (path : Text) : Bool :=
  match host.files.find host.workDir path with
  | .ok (_, entry) => entry.isExecutable
  | .error _ => false

/-- The path of a program, or its name as it is when there is nothing better. -/
def findExecutable (host : Host) (name : Text) : Text :=
  let name := Text.trim name
  if !(Path.dirName name).isEmpty then name
  else
    let candidates := host.searchPath.map fun directory => Path.join directory name
    (candidates.find? host.canExecute).getD name

end Host

end QueryDesk
