import QueryDesk.Query.Toolchain
import QueryDesk.Settings.Store

/-!
# The desk's settings

Where the settings file is, what the desk keeps in it, and how what is read from
it is made fit for use: words lose the blanks around them and fall back to their
defaults when nothing is left, lists lose what is empty or repeated, and numbers
are brought within their bounds.

## Main definitions

* `Host.defaultAppDir`: The directory of the settings file when none is given.
* `SettingsPaths`: The directory and the file, resolved.
* `Settings.defaults`: What the desk keeps.
* `Settings.fresh`, `Settings.ofValues`: Settings that have not been read yet.
* `Settings.normalized`: The values of the queries' section made fit for use.
* `Settings.load`, `Settings.save`: The file read and written.
-/

namespace QueryDesk

namespace Host

/-- The directory of the settings file when none is given: one named by the
    environment, or else one below the directory for configurations. -/
def defaultAppDir (host : Host) : Except Failure FilePath :=
  let own := Text.trim (host.variableText "PYORACLE_HOME")
  let configs := Text.trim (host.variableText "XDG_CONFIG_HOME")
  if !own.isEmpty then host.expandHome (FilePath.parse own)
  else
    let base :=
      if !configs.isEmpty then host.expandHome (FilePath.parse configs)
      else (host.expandHome (FilePath.parse "~")).map (·.append (FilePath.parse ".config"))
    base.map (·.append (FilePath.parse "pyoracle"))

end Host

/-- The directory of the settings file and the file itself, both resolved. -/
structure SettingsPaths where
  directory : FilePath
  file : FilePath
  deriving DecidableEq, Repr

namespace SettingsPaths

/-- The name of the settings file when none is given. -/
def defaultName : Text := "settings.json"

/-- The paths for a directory and a name. -/
def resolve (host : Host) (directory : FilePath) (name : Text) : Except Failure SettingsPaths :=
  match host.expandHome directory with
  | .error failure => .error failure
  | .ok directory =>
      match host.resolve directory with
      | .error failure => .error failure
      | .ok real =>
          let directory := FilePath.parse real
          .ok ⟨directory, directory.append (FilePath.parse name)⟩

end SettingsPaths

/-- The desk's settings. -/
abbrev Settings := SettingsStore

namespace Settings

/-- The section about queries. -/
def queries : Text := "oracle"

/-- The key of the directory that the dialog for opening files begins in. -/
def lastOpenDir : Text := "window.last_open_dir"

/-- The values of the section about queries that the desk begins with. -/
def queryDefaults : Section := [
  ("command", .str "oracle"),
  ("go_command", .str "go"),
  ("goroot", .str []),
  ("gopath", .arr []),
  ("history_limit", .int 32),
  ("panel_max_lines", .int 20),
  ("focus_panel", .bool true)]

/-- What the desk keeps, as it begins with it. -/
def defaults : Sections := [
  (queries, queryDefaults),
  ("window", [("last_open_dir", .str [])])]

/-- Settings of a directory, or of the default one, that have not been read
    yet. -/
def fresh (host : Host) (directory : Option Text) (name : Text) (persistent : Bool) :
    Except Failure Settings :=
  let directory : Except Failure FilePath :=
    match directory with
    | some directory => .ok (FilePath.parse directory)
    | none => host.defaultAppDir
  match directory with
  | .error failure => .error failure
  | .ok directory =>
      match SettingsPaths.resolve host directory name with
      | .error failure => .error failure
      | .ok paths => .ok (SettingsStore.fresh paths.file defaults persistent)

/-- Settings of a directory and a file name that may be values of any kind. Null
    stands for the default directory. -/
def ofValues (host : Host) (directory name : Json) (persistent : Bool) :
    Except Failure Settings :=
  match directory.notNull.mapM Json.asText with
  | .error failure => .error failure
  | .ok directory =>
      match name.asText with
      | .ok name => fresh host directory name persistent
      | .error failure =>
          -- The directory is resolved before the name is looked at.
          (fresh host directory SettingsPaths.defaultName persistent).bind fun _ =>
            .error failure

/-- The values of the section about queries. -/
def config (settings : Settings) : Section :=
  (Table.get? queries settings.data).getD []

/-- The value of a name, null when there is none. -/
def valueOf (values : Section) (name : Text) : Json :=
  (Section.get? name values).getD .null

/-- The word under a name without the blanks around it. -/
def wordOf (values : Section) (name : Text) : Text :=
  Text.trim (valueOf values name).word

/-- A value as an integer within bounds, or a default when it is no number. An
    infinite one has no integer. -/
def boundedInt (value : Json) (default low high : Int) : Except Failure Int :=
  match value.toInt with
  | .ok n => .ok (max low (min high n))
  | .error .infinite => .error (.notInt .infinite)
  | .error _ => .ok (max low (min high default))

/-- The entries that are not among the ones before them. -/
def distinct : List Text → List Text → List Text
  | _, [] => []
  | seen, entry :: rest =>
      if seen.contains entry then distinct seen rest else entry :: distinct (entry :: seen) rest

/-- The entries of a search path in a settings file: a list or a text, and
    nothing of any other value. -/
def searchPath : Json → List Text
  | .str path => distinct [] (Gopath.splitText path)
  | .arr items => distinct [] (Gopath.clean (items.map Json.word))
  | _ => []

/-- The values of the section about queries made fit for use. -/
def normalized (values : Section) : Except Failure (Table Json) :=
  match boundedInt (valueOf values "history_limit") 32 1 500,
      boundedInt (valueOf values "panel_max_lines") 20 3 200 with
  | .error failure, _ => .error failure
  | _, .error failure => .error failure
  | .ok historyLimit, .ok panelLines =>
      .ok [
        ("command", .str ((wordOf values "command").orElse "oracle")),
        ("go_command", .str ((wordOf values "go_command").orElse "go")),
        ("goroot", .str (wordOf values "goroot")),
        ("gopath", .arr ((searchPath (valueOf values "gopath")).map .str)),
        ("history_limit", .int historyLimit),
        ("panel_max_lines", .int panelLines),
        ("focus_panel", .bool ((Section.get? "focus_panel" values).getD (.bool true)).truthy)]

/-- The settings read anew and made fit for use. -/
def load (settings : Settings) (host : Host) : Settings × Except Failure Unit :=
  match SettingsStore.load settings host with
  | (settings, .error failure) => (settings, .error failure)
  | (settings, .ok ()) =>
      match normalized (config settings) with
      | .error failure => (settings, .error failure)
      | .ok values =>
          match SettingsStore.set settings queries (.obj values) with
          | (settings, .error failure) => (settings, .error failure)
          | (settings, .ok _) => (settings, .ok ())

/-- The settings written, unless only changes are wanted and there are none, and
    whether they were. -/
def save (settings : Settings) (host : Host) (onlyDirty : Bool) :
    Settings × Host × Except Failure Bool :=
  if onlyDirty && !settings.dirty then (settings, host, .ok false)
  else
    match SettingsStore.save settings host with
    | (settings, host, .error failure) => (settings, host, .error failure)
    | (settings, host, .ok ()) => (settings, host, .ok true)

/-- The text shown for what is wrong with the settings file, empty when nothing
    is. -/
def loadMessage (settings : Settings) : Text :=
  (settings.loadError.map fun problem => problem.message settings.path.text).getD []

end Settings

end QueryDesk
