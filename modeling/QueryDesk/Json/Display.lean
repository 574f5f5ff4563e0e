import QueryDesk.Json.Basic
import QueryDesk.Text.Digit
import QueryDesk.Text.Quoted

/-!
# Values as words and numbers

A setting may hold any value where a word or a number is wanted, and an operation
of the desk may be given any. A word is made of it by showing it: a text as it
is, any other value the way diagnostics show it, with texts inside it between
quotes. A value that does not count as set makes the empty word. A number is made
by cutting off the fraction, by reading a text, or by taking a truth value as one
or zero.

## Main definitions

* `Json.shown`: A value as diagnostics show it.
* `Json.display`: A value as a word.
* `Json.word`: A value as a word, empty when it does not count as set.
* `Json.word?`: The same, with none for null.
* `Json.toInt`: A value as an integer, or why it is none.
* `Json.positive?`: Whether a value is a number above zero.
-/

namespace QueryDesk

namespace Json

mutual

/-- The value as diagnostics show it. -/
def shown : Json → Text
  | .null => "None"
  | .bool b => if b then "True" else "False"
  | .int n => Text.ofInt n
  | .float x => x.text "nan" "inf"
  | .str t => t.quoted
  | .arr items => '[' :: Text.join ", " (shownItems items) ++ [']']
  | .obj fields => '\x7b' :: Text.join ", " (shownFields fields) ++ ['\x7d']

/-- The items as diagnostics show them. -/
def shownItems : List Json → List Text
  | [] => []
  | item :: items => shown item :: shownItems items

/-- The fields as diagnostics show them. -/
def shownFields : List (Text × Json) → List Text
  | [] => []
  | (key, value) :: fields => (key.quoted ++ ": " ++ shown value) :: shownFields fields

end

/-- The value as a word. -/
def display : Json → Text
  | .str t => t
  | other => shown other

/-- The value as a word, empty when it does not count as set. -/
def word (value : Json) : Text :=
  if value.truthy then display value else []

/-- The value, unless it is null. -/
def notNull : Json → Option Json
  | .null => none
  | value => some value

/-- The value as a word, none when it is null. -/
def word? (value : Json) : Option Text :=
  value.notNull.map word

/-- Why a value is no integer. -/
inductive IntFault
  /-- The kind of value has no integer. -/
  | noNumber
  /-- The text or number has no integer that it stands for. -/
  | unreadable
  /-- The number is infinite. -/
  | infinite
  deriving DecidableEq, Repr

/-- The value as an integer. -/
def toInt : Json → Except IntFault Int
  | .bool b => .ok b.toInt
  | .int n => .ok n
  | .float (.finite negative mantissa shift) => .ok (Binary64.truncate negative mantissa shift)
  | .float (.infinity _) => .error .infinite
  | .float .nan => .error .unreadable
  | .str t =>
      match Text.readInt? t with
      | some n => .ok n
      | none => .error .unreadable
  | _ => .error .noNumber

/-- The value is a number above zero, when it is a number or a truth value. -/
def positive? : Json → Option Bool
  | .bool b => some b
  | .int n => some (decide (0 < n))
  | .float (.finite negative mantissa _) => some (!negative && mantissa != 0)
  | .float (.infinity negative) => some !negative
  | .float .nan => some false
  | _ => none

end Json

end QueryDesk
