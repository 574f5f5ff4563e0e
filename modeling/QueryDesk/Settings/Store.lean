import QueryDesk.Host.Resolve
import QueryDesk.Json.Reader
import QueryDesk.Settings.Section
import QueryDesk.Text.Line

/-!
# The settings store

Settings in memory, and the file they are read from and written to. Reading
fills every section with its defaults and takes over what the file has in it. A
file that cannot be read or makes no sense is left alone, and what is wrong with
it is kept. The store remembers whether something changed since the file was
last read or written; a value that is set to an equal one has not changed.

Values that are nested too deep are not read at all: the settings stay what they
were before, and nothing is kept about the file.

## Main definitions

* `LoadError`: What is wrong with a settings file.
* `SettingsStore`: The settings and their file.
* `SettingsStore.load`: The settings read anew.
* `SettingsStore.save`: The settings written.
* `SettingsStore.get`, `SettingsStore.set`: A value by its key.
-/

namespace QueryDesk

/-- What is wrong with a settings file. -/
inductive LoadError
  | file (fault : FileFault)
  /-- The bytes are no text. -/
  | notText (fault : Utf8.Fault)
  /-- The text is no JSON. -/
  | notJson (text : Text) (stop : Json.Stop)
  /-- The value is of another kind than an object. -/
  | notObject (kind : Text)
  deriving Repr

/-- The file holds lists and objects that are nested deeper than is allowed. -/
def LoadError.isTooDeep : LoadError → Bool
  | .notJson _ stop => stop.problem == .tooDeep
  | _ => false

/-- The text shown for a settings file that makes no sense. -/
def LoadError.message (path : Text) : LoadError → Text
  | .file fault => fault.message
  | .notText fault => fault.message
  | .notJson text stop => stop.message text
  | .notObject kind => "Settings in '" ++ path ++ "' must be a JSON object, found " ++ kind ++ "."

/-- Settings in memory, and the file they belong to. -/
structure SettingsStore where
  path : FilePath
  defaults : Sections
  /-- Without it the settings are never read from nor written to the file. -/
  persistent : Bool
  data : Sections
  dirty : Bool
  loadError : Option LoadError
  deriving Repr

namespace SettingsStore

/-- A store that has read nothing yet. -/
def fresh (path : FilePath) (defaults : Sections) (persistent : Bool) : SettingsStore :=
  ⟨path, defaults, persistent, [], false, none⟩

/-- The object that the bytes of a settings file hold. -/
def parse (bytes : Bytes) : Except LoadError (Table Json) :=
  match Utf8.fault? bytes with
  | some fault => .error (.notText fault)
  | none =>
      let text := Text.normalizeBreaks (Utf8.decodeLossy bytes)
      match Json.read text with
      | .error stop => .error (.notJson text stop)
      | .ok (.obj fields) => .ok fields
      | .ok other => .error (.notObject other.kindName)

/-- The object in the file at the store's path. -/
def readFile (store : SettingsStore) (host : Host) : Except LoadError (Table Json) :=
  match host.files.openBytes host.refusals host.workDir store.path.text with
  | .error fault => .error (.file fault)
  | .ok bytes => parse bytes

/-- A section with what a file has for it taken over. -/
def fill (defaults : Section) (stored : Option Json) : Section :=
  match stored with
  | some (.obj fields) => Section.update defaults (.ofFields fields)
  | _ => defaults

/-- Every section with what a file has for it taken over. -/
def withDefaults (defaults : Sections) (stored : Table Json) : Sections :=
  defaults.map fun (name, values) => (name, fill values (Table.get? name stored))

/-- How deep the values of a section may be nested to be taken over. Two calls are made
    inside of each other for each list or object, and no more than a thousand calls are
    made so. The number is what is left of these where the settings are loaded, and is
    only as exact as the count of the calls before. -/
def maxDepth : Nat := 495

/-- What a file has for a section is nested no deeper than can be taken over. -/
def storedFits : Option Json → Bool
  | some (.obj fields) => decide ((Json.obj fields).depth ≤ maxDepth)
  | _ => true

/-- No default, and nothing that a file has for a section, is nested deeper than
    can be taken over. -/
def fits (defaults : Sections) (stored : Table Json) : Bool :=
  defaults.all fun (name, values) =>
    decide ((Section.toJson values).depth ≤ maxDepth) && storedFits (Table.get? name stored)

/-- The store with every section filled anew, and whether the settings count as
    changed. -/
def refill (store : SettingsStore) (stored : Table Json) (dirty : Bool) :
    SettingsStore × Except Failure Unit :=
  if fits store.defaults stored then
    ({ store with data := withDefaults store.defaults stored, dirty }, .ok ())
  else (store, .error .tooDeep)

/-- The settings read anew. Where there is no file, they count as changed. -/
def load (store : SettingsStore) (host : Host) : SettingsStore × Except Failure Unit :=
  let store := { store with loadError := none }
  if !store.persistent then store.refill [] false
  else
    match host.test (fun _ => true) store.path.text with
    | .error failure => (store, .error failure)
    | .ok false => store.refill [] true
    | .ok true =>
        match store.readFile host with
        | .error problem =>
            if problem.isTooDeep then (store, .error .tooDeep)
            else { store with loadError := some problem }.refill [] false
        | .ok stored => store.refill stored false

/-- The text of the settings as it stands in a file, unless the names in one of
    the sections have no order. -/
def payload? (store : SettingsStore) : Option Text :=
  store.data.print?

/-- What keeps the settings from being written. A refusal is told by the path of the
    settings, whatever its cause and whichever directory it is about. -/
def writeFailure (store : SettingsStore) : WriteFault → Failure
  | .file (.refused _ _ _) | .stopped _ => .unwritable store.path.text
  | other => other.failure

/-- The settings written, and with them the directories that are missing. -/
def save (store : SettingsStore) (host : Host) : SettingsStore × Host × Except Failure Unit :=
  if !store.persistent then ({ store with dirty := false }, host, .ok ())
  else
    match store.payload? with
    | none => (store, host, .error .mixedNames)
    | some payload =>
        match host.files.makeDirectories host.refusals host.workDir store.path.parent with
        | (files, .error fault) =>
            (store, { host with files }, .error (store.writeFailure (.file fault)))
        | (files, .ok ()) =>
            match files.overwrite host.refusals host.workDir store.path.text
              (Utf8.encode payload) with
            | (files, .error fault) =>
                (store, { host with files }, .error (store.writeFailure fault))
            | (files, .ok ()) =>
                ({ store with loadError := none, dirty := false }, { host with files }, .ok ())

/-- The value under a key, or a default when there is none. -/
def get (store : SettingsStore) (key : Text) (default : Json) : Except Failure Json :=
  match SettingsKey.split key with
  | .error failure => .error failure
  | .ok (sectionName, name) =>
      match Table.get? sectionName store.data with
      | none => .ok default
      | some values =>
          .ok (if name.isEmpty then Section.toJson values
            else (Section.get? name values).getD default)

/-- The store with other values in a section. -/
def putSection (store : SettingsStore) (sectionName : Text) (values : Section) : SettingsStore :=
  { store with data := Table.put sectionName values store.data }

/-- A value set under a key, and whether it changed anything. A section that is
    missing is made in any case. -/
def set (store : SettingsStore) (key : Text) (value : Json) :
    SettingsStore × Except Failure Bool :=
  match SettingsKey.split key with
  | .error failure => (store, .error failure)
  | .ok (sectionName, name) =>
      let values := (Table.get? sectionName store.data).getD []
      -- The section is there from here on, also when the value is refused.
      let store := store.putSection sectionName values
      if name.isEmpty then
        if Section.agrees values value then (store, .ok false)
        else
          match Section.ofJson value with
          | .error failure => (store, .error failure)
          | .ok values => ({ store.putSection sectionName values with dirty := true }, .ok true)
      else
        match (Section.get? name values).map (·.agrees value) with
        | some true => (store, .ok false)
        | _ =>
            ({ store.putSection sectionName (Section.put name value values) with dirty := true },
              .ok true)

end SettingsStore

end QueryDesk
