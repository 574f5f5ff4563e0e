import QueryDesk.Json.Printer

/-!
# Names of settings

What a value of a section is kept under. Keys and settings files name values by
texts only, but a section that is put together from pairs can be named by
numbers, truth values and null too. Two names are the same when they are worth
the same, so one, true and a one with a fraction are one name, which stays
written the way it was first given. A number is never the same as a text.

Names are put in order when a section is written. Texts have an order and so
have numbers, but there is none between the two, nor between either and null.

## Main definitions

* `SettingName`: What a value is kept under.
* `SettingName.same`: Two names are worth the same.
* `SettingName.written`: How a name stands in a settings file.
* `SettingName.below`: The order of numbers.
-/

namespace QueryDesk

/-- What a value of a section is kept under. -/
inductive SettingName
  | text (t : Text)
  | null
  | bool (b : Bool)
  | int (n : Int)
  | float (x : Binary64)
  deriving DecidableEq, Repr

namespace SettingName

instance : Coe Text SettingName := ⟨.text⟩

/-- The name as a value. -/
def toJson : SettingName → Json
  | .text t => .str t
  | .null => .null
  | .bool b => .bool b
  | .int n => .int n
  | .float x => .float x

/-- The value as a name, none when it is a list or an object. -/
def ofJson? : Json → Option SettingName
  | .str t => some (.text t)
  | .null => some .null
  | .bool b => some (.bool b)
  | .int n => some (.int n)
  | .float x => some (.float x)
  | .arr _ => none
  | .obj _ => none

/-- The name is a text. -/
def isText : SettingName → Bool
  | .text _ => true
  | _ => false

/-- The name is a number or a truth value. -/
def isNumber : SettingName → Bool
  | .bool _ => true
  | .int _ => true
  | .float _ => true
  | _ => false

/-- Two names are worth the same. The number that is none is the same as
    itself. -/
def same (a b : SettingName) : Bool :=
  (a.toJson.isNan && b.toJson.isNan) || a.toJson.agrees b.toJson

/-- How the name stands in a settings file, without the quotes around it. -/
def written : SettingName → Text
  | .text t => t
  | other => other.toJson.compact

/-- What a number is worth: its side when it is infinite, and its multiple of the
    smallest positive number when it is not. -/
def worth? : SettingName → Option (Int × Int)
  | .bool b => some (0, b.toInt * Binary64.unitParts)
  | .int n => some (0, n * Binary64.unitParts)
  | .float (.finite negative mantissa shift) =>
      some (0, Binary64.signedUnits negative mantissa shift)
  | .float (.infinity negative) => some (if negative then -1 else 1, 0)
  | _ => none

/-- The first name is a lesser number than the second. -/
def below (a b : SettingName) : Bool :=
  match a.worth?, b.worth? with
  | some (side, units), some (side', units') =>
      decide (side < side') || (side == side' && decide (units < units'))
  | _, _ => false

end SettingName

end QueryDesk
