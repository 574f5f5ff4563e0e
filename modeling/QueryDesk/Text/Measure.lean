import QueryDesk.Text.Utf8

/-!
# Measured positions

A position in a text can be given in other units than characters: in bytes, or
in the sixteen-bit units of a text widget. Both count what the characters before
the position take, so both are one measure with a different width of a
character. `reach` goes back from such a position to a character index: the
first one whose prefix takes at least as much.

## Main definitions

* `Text.measure`: What a text takes in some unit.
* `Text.reach`: The first index whose prefix takes at least so much.
* `Text.byteWidth`, `Text.byteLength`: The measure in bytes.
* `Text.unitWidth`, `Text.unitLength`, `Text.unitIndex`: The measure in
  sixteen-bit units.
-/

namespace QueryDesk

namespace Text

/-- The sum of some widths. -/
def total (widths : List Nat) : Nat :=
  widths.foldr (· + ·) 0

/-- What a text takes when each character takes its width. -/
def measure (width : Char → Nat) (t : Text) : Nat :=
  total (t.map width)

/-- The least index whose prefix takes at least `target`, or the text's length
    when there is none. -/
def reach (width : Char → Nat) : Nat → Text → Nat
  | 0, _ => 0
  | _ + 1, [] => 0
  | target + 1, c :: rest => reach width (target + 1 - width c) rest + 1

/-- The bytes of one character. -/
def byteWidth (c : Char) : Nat :=
  (String.utf8EncodeChar c).length

/-- The bytes of a text. -/
def byteLength (t : Text) : Nat :=
  measure byteWidth t

/-- The sixteen-bit units of one character. -/
def unitWidth (c : Char) : Nat :=
  if 0xffff < Unpaired.code c then 2 else 1

/-- The sixteen-bit units of a text. -/
def unitLength (t : Text) : Nat :=
  measure unitWidth t

/-- The character index of a position in sixteen-bit units. A position below
    zero is the start, and one inside a character is the index after it. -/
def unitIndex (t : Text) (units : Int) : Nat :=
  reach unitWidth units.toNat t

end Text

end QueryDesk
