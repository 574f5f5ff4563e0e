import QueryDesk.Failure
import QueryDesk.Settings.Name

/-!
# Sections of settings

Settings are kept in sections of named values. A key names a section, or with a
point a value in it. A whole section can be put in place of another: it is an
object, or a list of pairs, where two characters also make a pair. The name in a
pair can be anything but a list or an object.

## Main definitions

* `Section`: The values of one section by name.
* `Section.get?`, `Section.put`: A value under a name.
* `Section.ofJson`: A value taken as a whole section.
* `Section.ordered?`: The values in the order of their names, where there is one.
* `Sections`: The sections by name, each with its values by name.
* `Sections.print?`: The sections as they stand in a file.
* `SettingsKey.split`: The section and the value a key names.
-/

namespace QueryDesk

/-- The values of one section under their names, in the order the names were
    first put. -/
abbrev Section := List (SettingName × Json)

/-- The sections by name. -/
abbrev Sections := Table Section

namespace Section

/-- The value under a name. -/
def find? (name : SettingName) : Section → Option Json
  | [] => none
  | (other, value) :: rest => if other.same name then some value else find? name rest

/-- The value under a name that is a text. -/
def get? (name : Text) (values : Section) : Option Json :=
  find? (.text name) values

/-- The values with one put under a name. A name that is there already stays as
    it is written. -/
def put (name : SettingName) (value : Json) : Section → Section
  | [] => [(name, value)]
  | (other, old) :: rest =>
      if other.same name then (other, value) :: rest else (other, old) :: put name value rest

/-- The values with all entries of another section put in, in their order. -/
def update (values other : Section) : Section :=
  other.foldl (fun acc entry => put entry.1 entry.2 acc) values

/-- The section that putting the entries in one after the other makes. -/
def ofEntries (entries : Section) : Section :=
  update [] entries

/-- The fields of an object as a section. -/
def ofFields (fields : Table Json) : Section :=
  fields.map fun (name, value) => (.text name, value)

/-- The section as an object, each name as it is written. -/
def toJson (values : Section) : Json :=
  .obj (values.map fun (name, value) => (name.written, value))

/-- Each value of the section has an equal one among the fields of an object. -/
def valuesAgree (fields : Table Json) (values : Section) : Bool :=
  values.all fun (name, value) =>
    match name with
    | .text t => Json.fieldsAgree [(t, value)] fields
    | _ => false

/-- The section is equal to a value: an object with equal values under the same
    names, in any order. -/
def agrees (values : Section) : Json → Bool
  | .obj fields => values.length == fields.length && valuesAgree fields values
  | _ => false

/-- The name and the value that an item of a list makes, when it has two
    parts. -/
def pairOf : Json → Except Failure (SettingName × Json)
  | .arr [name, value] =>
      match SettingName.ofJson? name with
      | some name => .ok (name, value)
      | none => .error .noItems
  | .arr _ => .error .notPair
  | .str [name, value] => .ok (.text [name], .str [value])
  | .str _ => .error .notPair
  | .obj [(name, _), (value, _)] => .ok (.text name, .str value)
  | .obj _ => .error .notPair
  | _ => .error .noItems

/-- The entries that the items of a list make. -/
def pairsOf : List Json → Except Failure Section
  | [] => .ok []
  | item :: items =>
      match pairOf item with
      | .error failure => .error failure
      | .ok entry =>
          match pairsOf items with
          | .error failure => .error failure
          | .ok entries => .ok (entry :: entries)

/-- A value taken as a whole section. -/
def ofJson : Json → Except Failure Section
  | .obj fields => .ok (ofFields fields)
  | .arr items => (pairsOf items).map ofEntries
  | .str [] => .ok []
  | .str _ => .error .notPair
  | _ => .error .noItems

/-- The values in the order of their names. There is none when texts, numbers
    and null are mixed. -/
def ordered? (values : Section) : Option Section :=
  if values.all fun entry => entry.1.isText then
    some (values.mergeSort fun a b => Text.precedes a.1.written b.1.written)
  else if values.all fun entry => entry.1.isNumber then
    some (values.mergeSort fun a b => !b.1.below a.1)
  else if values.length ≤ 1 then some values
  else none

/-- The section as it stands at a depth of nesting. -/
def printAt? (depth : Nat) (values : Section) : Option Text :=
  values.ordered?.map fun values =>
    Json.bracketed depth '\x7b' '\x7d' <| values.map fun (name, value) =>
      Json.escape name.written ++ ": " ++ Json.printAt (depth + 1) value

end Section

namespace Sections

/-- The sections as one value. -/
def toJson (sections : Sections) : Json :=
  .obj (sections.map fun (name, values) => (name, Section.toJson values))

/-- The sections as they stand in a file, unless the names of one of them have
    no order. -/
def print? (sections : Sections) : Option Text :=
  let parts := (Json.sortByKey sections).mapM fun (name, values) =>
    (Section.printAt? 1 values).map fun part => Json.escape name ++ ": " ++ part
  parts.map (Json.bracketed 0 '\x7b' '\x7d')

end Sections

namespace SettingsKey

/-- The section and the value a key names. The second part is empty when the key
    is that of a whole section. -/
def split (key : Text) : Except Failure (Text × Text) :=
  let key := Text.trim key
  let name := Text.before '.' key
  if name.isEmpty then .error .emptyKey else .ok (name, Text.after '.' key)

end SettingsKey

end QueryDesk
