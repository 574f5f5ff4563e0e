import QueryDesk.Number.Shortest
import QueryDesk.Table

/-!
# JSON values

The values of a settings file. An object keeps the order of its keys. Integers
and numbers with a fraction are different values that can be equal: the equality
under which a setting counts as unchanged compares all numbers by what they are
worth and takes the truth values as one and zero.

## Main definitions

* `Json`: A value.
* `Json.items`, `Json.fields`, `Json.get`: What a list or an object holds.
* `Json.truthy`: The values that count as set.
* `Json.agrees`: The equality under which a setting counts as unchanged.
* `Json.kindName`: What a value is called in diagnostics.
* `Json.depth`: How deep lists and objects are nested in a value.
-/

namespace QueryDesk

/-- A JSON value. -/
inductive Json
  | null
  | bool (b : Bool)
  | int (n : Int)
  | float (x : Binary64)
  | str (t : Text)
  | arr (items : List Json)
  | obj (fields : List (Text × Json))
  deriving Repr

namespace Json

instance : Inhabited Json := ⟨.null⟩

/-- The items of a list. Another value has none. -/
def items : Json → List Json
  | .arr items => items
  | _ => []

/-- The fields of an object. Another value has none. -/
def fields : Json → Table Json
  | .obj fields => fields
  | _ => []

/-- The field of an object under a key. -/
def get? (value : Json) (key : Text) : Option Json :=
  Table.get? key value.fields

/-- The field of an object under a key, null when there is none. -/
def get (value : Json) (key : Text) : Json :=
  (value.get? key).getD .null

/-- The value counts as set: it is not null, false, zero or empty. -/
def truthy : Json → Bool
  | .null => false
  | .bool b => b
  | .int n => n != 0
  | .float x => !x.isZero
  | .str t => !t.isEmpty
  | .arr items => !items.isEmpty
  | .obj fields => !fields.isEmpty

/-- What a value is called in diagnostics. -/
def kindName : Json → Text
  | .null => "NoneType"
  | .bool _ => "bool"
  | .int _ => "int"
  | .float _ => "float"
  | .str _ => "str"
  | .arr _ => "list"
  | .obj _ => "dict"

/-- The value is the one that is not a number. -/
def isNan : Json → Bool
  | .float .nan => true
  | _ => false

/-- The value is the text. -/
def isText (t : Text) : Json → Bool
  | .str s => s == t
  | _ => false

/-- Two values are the same number. A truth value is one or zero. -/
def sameNumber : Json → Json → Bool
  | .float x, .float y => x.same y
  | .float x, .int n => x.sameInt n
  | .float x, .bool b => x.sameInt b.toInt
  | .int n, .float x => x.sameInt n
  | .bool b, .float x => x.sameInt b.toInt
  | .int m, .int n => m == n
  | .int m, .bool b => m == b.toInt
  | .bool b, .int n => b.toInt == n
  | .bool b, .bool b' => b == b'
  | _, _ => false

mutual

/-- Two values are equal as settings: lists item by item, objects field by field
    in any order, numbers by what they are worth. -/
def agrees : Json → Json → Bool
  | .null, other => match other with
    | .null => true
    | _ => false
  | .str s, other => other.isText s
  | .arr items, other => match other with
    | .arr others => itemsAgree items others
    | _ => false
  | .obj fields, other => match other with
    | .obj others => fields.length == others.length && fieldsAgree fields others
    | _ => false
  | .bool b, other => sameNumber (.bool b) other
  | .int n, other => sameNumber (.int n) other
  | .float x, other => sameNumber (.float x) other

/-- Two lists of values are equal item by item. Inside a list the value that is
    not a number is equal to itself. -/
def itemsAgree : List Json → List Json → Bool
  | [], others => others.isEmpty
  | item :: items, others => match others with
    | [] => false
    | other :: others =>
        ((item.isNan && other.isNan) || agrees item other) && itemsAgree items others

/-- Each field of the first list has an equal one in the second. Inside an
    object the value that is not a number is equal to itself. -/
def fieldsAgree : List (Text × Json) → List (Text × Json) → Bool
  | [], _ => true
  | (key, value) :: fields, others =>
      (match Table.get? key others with
        | some other => (value.isNan && other.isNan) || agrees value other
        | none => false) && fieldsAgree fields others

end

mutual

/-- How deep lists and objects are nested in a value. -/
def depth : Json → Nat
  | .arr items => itemsDepth items + 1
  | .obj fields => fieldsDepth fields + 1
  | _ => 0

/-- The depth of the deepest item. -/
def itemsDepth : List Json → Nat
  | [] => 0
  | item :: items => max (depth item) (itemsDepth items)

/-- The depth of the deepest value of a field. -/
def fieldsDepth : List (Text × Json) → Nat
  | [] => 0
  | (_, value) :: fields => max (depth value) (fieldsDepth fields)

end

end Json

end QueryDesk
