import QueryDesk.Desk.Startup

/-!
# Command line

The files named on the command line are opened in the desk, which then says what
it holds: a line for each tab with a star before the current one, and the debug
log. Only what the disk and the environment say is gathered here; everything
else is the start of the desk on the host they make.

## Main definitions

* `CommandLine.variableNames`: The variables of the environment the desk looks at.
* `CommandLine.gather`: A host with the files of some names on it.
* `CommandLine.report`: What the desk holds.
* `main`: The desk started and its report printed.
-/

namespace QueryDesk

namespace CommandLine

/-- The variables of the environment the desk looks at. -/
def variableNames : List String :=
  ["HOME", "PATH", "PYORACLE_HOME", "XDG_CONFIG_HOME", "GOROOT", "GOPATH"]

/-- The names that lead to a path from the root. -/
def placeOf (path : Text) : Place :=
  (FilePath.parse path).names

/-- A tree with a file at the place its real path leads to, and with a link to it
    at the path it was named by when that is another one. -/
def plantFile (tree : FileTree) (path real : Text) (content : Bytes) : FileTree :=
  let tree := tree.put (placeOf real) (.file content false)
  if placeOf path = placeOf real then tree else tree.put (placeOf path) (.link real)

/-- The absolute path that a name on the command line stands for. -/
def pathOf (host : Host) (name : Text) : Text :=
  match host.expandHome (FilePath.parse (Text.trim name)) with
  | .ok path => Path.absolute host.workDir path.text
  | .error _ => Path.absolute host.workDir name

/-- A tree with the file that the disk has at a path, unless it has none that can
    be read. -/
def gatherFile (tree : FileTree) (path : Text) : IO FileTree := do
  try
    let real ← IO.FS.realPath (String.ofList path)
    let content ← IO.FS.readBinFile (String.ofList path)
    return plantFile tree path real.toString.toList content.toList
  catch _ =>
    return tree

/-- The host that the environment and the working directory make, without any
    file on it. -/
def emptyHost : IO Host := do
  let workDir := placeOf (← IO.currentDir).toString.toList
  let found ← variableNames.filterMapM fun name => do
    return (← IO.getEnv name).map fun value => (name.toList, value.toList)
  return {
    files := FileTree.put ⟨[]⟩ workDir (.directory [])
    workDir
    environment := found
    accounts := Host.commonAccounts
    outcomes := []
    launches := []
    refusals := .none
    metrics := ⟨0, 0, 0⟩ }

/-- A host with the files of some names on it, and with the settings file at a
    path. -/
def gather (host : Host) (names : List Text) (settings : Text) : IO Host := do
  let paths := settings :: names.map (pathOf host)
  let files ← paths.foldlM gatherFile host.files
  return { host with files }

/-- A line for a tab: its title and the file it belongs to. -/
def tabLine (current : Bool) (tab : Tab) : Text :=
  (if current then "* " else "  ") ++ tab.title ++ "\t" ++ tab.tip

/-- What the desk holds: its tabs and its debug log. -/
def report (window : Window) : List Text :=
  let tabs := window.tabs.all.zipIdx.map fun (tab, index) =>
    tabLine (window.tabs.current == some index) tab
  tabs ++ (if window.log.content.isEmpty then [] else [window.log.plainText])

end CommandLine

end QueryDesk

open QueryDesk in
/-- The desk started and its report printed. A start that fails says why. -/
def main (arguments : List String) : IO UInt32 := do
  let arguments := Arguments.split (arguments.map String.toList)
  let host ← CommandLine.emptyHost
  match Settings.fresh host none SettingsPaths.defaultName true with
  | .error failure =>
    IO.eprintln (String.ofList failure.message)
    return 1
  | .ok settings =>
    let host ← CommandLine.gather host arguments.files settings.path.text
    let outcome := Window.start host ⟨[], []⟩ settings arguments
    for line in CommandLine.report outcome.state do
      IO.println (String.ofList line)
    match outcome.result with
    | .ok () => return 0
    | .error failure =>
      IO.eprintln (String.ofList failure.message)
      return 1
