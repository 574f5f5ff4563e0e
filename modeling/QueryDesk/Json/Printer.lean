import QueryDesk.Json.Basic
import QueryDesk.Text.Quoted

/-!
# Writing JSON

A settings file is written with one item or field a line, two blanks deeper for
each level, fields in the order of their keys, and ASCII only: every other
character is escaped by its sixteen-bit units.

## Main definitions

* `Json.escape`: A text between double quotes.
* `Json.print`: A value over several lines.
* `Json.compact`: A value on one line, fields in their own order.
-/

namespace QueryDesk

namespace Json

/-- The escape of one sixteen-bit unit. -/
def unitEscape (n : Nat) : Text :=
  '\\' :: 'u' :: Text.hex 4 n

/-- How one character stands between double quotes. -/
def escapeChar (c : Char) : Text :=
  let n := Unpaired.code c
  if c = '"' || c = '\\' then ['\\', c]
  else if c = '\n' then ['\\', 'n']
  else if c = '\r' then ['\\', 'r']
  else if c = '\t' then ['\\', 't']
  else if n = 12 then ['\\', 'f']
  else if n = 8 then ['\\', 'b']
  else if 0x20 ≤ n && n < 0x7f then [c]
  else if n < 0x10000 then unitEscape n
  else unitEscape (0xd800 + (n - 0x10000) / 1024) ++ unitEscape (0xdc00 + (n - 0x10000) % 1024)

/-- The text between double quotes. -/
def escape (t : Text) : Text :=
  '"' :: t.flatMap escapeChar ++ ['"']

/-- A number with a fraction or an exponent as it stands in a file. -/
def floatText (x : Binary64) : Text :=
  x.text "NaN" "Infinity"

/-- Lines between brackets, one level deeper than the brackets. -/
def bracketed (depth : Nat) (opening closing : Char) (parts : List Text) : Text :=
  if parts.isEmpty then [opening, closing]
  else
    let inner := '\n' :: List.replicate (2 * (depth + 1)) ' '
    opening :: inner ++ Text.join (',' :: inner) parts ++ '\n' :: List.replicate (2 * depth) ' '
      ++ [closing]

/-- Fields in the order of their keys. -/
def sortByKey {α : Type} (fields : List (Text × α)) : List (Text × α) :=
  fields.mergeSort fun a b => Text.precedes a.1 b.1

mutual

/-- The value as it stands at a depth of nesting. -/
def printAt (depth : Nat) : Json → Text
  | .null => "null"
  | .bool b => if b then "true" else "false"
  | .int n => Text.ofInt n
  | .float x => floatText x
  | .str t => escape t
  | .arr items => bracketed depth '[' ']' (printItems (depth + 1) items)
  | .obj fields =>
      bracketed depth '\x7b' '\x7d'
        ((sortByKey (printFields (depth + 1) fields)).map fun f => escape f.1 ++ ": " ++ f.2)

/-- The items as they stand at a depth of nesting. -/
def printItems (depth : Nat) : List Json → List Text
  | [] => []
  | item :: items => printAt depth item :: printItems depth items

/-- The values of the fields as they stand at a depth of nesting. -/
def printFields (depth : Nat) : List (Text × Json) → List (Text × Text)
  | [] => []
  | (key, value) :: fields => (key, printAt depth value) :: printFields depth fields

end

/-- The value over several lines. -/
def print (value : Json) : Text :=
  printAt 0 value

mutual

/-- The value on one line. -/
def compact : Json → Text
  | .null => "null"
  | .bool b => if b then "true" else "false"
  | .int n => Text.ofInt n
  | .float x => floatText x
  | .str t => escape t
  | .arr items => '[' :: Text.join [','] (compactItems items) ++ [']']
  | .obj fields => '\x7b' :: Text.join [','] (compactFields fields) ++ ['\x7d']

/-- The items on one line. -/
def compactItems : List Json → List Text
  | [] => []
  | item :: items => compact item :: compactItems items

/-- The fields on one line. -/
def compactFields : List (Text × Json) → List Text
  | [] => []
  | (key, value) :: fields => (escape key ++ ':' :: compact value) :: compactFields fields

end

end Json

end QueryDesk
