import QueryDesk.Text.Basic

/-!
# Decimal digits

Unicode gives every script's decimal digits in runs of ten consecutive code
points, from the digit zero up, so the class and the values of its members are
both given by where the runs start. Numbers in tool output and in settings may
be written with any of them.

A numeral has at most `maxDigits` digits: a longer one is refused rather than
converted.

## Main definitions

* `Text.digitZeros`: The code points of the digits zero.
* `Text.digitValue?`: The value of a decimal digit of any script.
* `Text.numeralValue`: The value of a run of digits.
* `Text.readInt?`: The integer a text writes, with blanks around it, a sign and
  single underscores between digits allowed.
-/

namespace QueryDesk

namespace Text

/-- The code points of the decimal digits zero of all scripts. -/
def digitZeros : List Nat := [
  0x30, 0x660, 0x6f0, 0x7c0, 0x966, 0x9e6, 0xa66, 0xae6, 0xb66, 0xbe6, 0xc66, 0xce6, 0xd66,
  0xde6, 0xe50, 0xed0, 0xf20, 0x1040, 0x1090, 0x17e0, 0x1810, 0x1946, 0x19d0, 0x1a80, 0x1a90,
  0x1b50, 0x1bb0, 0x1c40, 0x1c50, 0xa620, 0xa8d0, 0xa900, 0xa9d0, 0xa9f0, 0xaa50, 0xabf0,
  0xff10, 0x104a0, 0x10d30, 0x11066, 0x110f0, 0x11136, 0x111d0, 0x112f0, 0x11450, 0x114d0,
  0x11650, 0x116c0, 0x11730, 0x118e0, 0x11950, 0x11c50, 0x11d50, 0x11da0, 0x16a60, 0x16ac0,
  0x16b50, 0x1d7ce, 0x1d7d8, 0x1d7e2, 0x1d7ec, 0x1d7f6, 0x1e140, 0x1e2f0, 0x1e950, 0x1fbf0]

/-- The value of a decimal digit of any script. -/
def digitValue? (c : Char) : Option Nat :=
  (digitZeros.find? fun first => first ≤ c.toNat && c.toNat < first + 10).map (c.toNat - ·)

/-- The character is a decimal digit of some script. -/
def isDigit (c : Char) : Bool :=
  (digitValue? c).isSome

/-- The value of a run of digits, the most significant first. -/
def numeralValue (t : Text) : Nat :=
  t.foldl (fun n c => 10 * n + (digitValue? c).getD 0) 0

/-- The most digits a numeral may have. -/
def maxDigits : Nat := 4300

/-- The run of digits is short enough to be converted. -/
def isShortNumeral (t : Text) : Bool :=
  t.length ≤ maxDigits

/-- The digits of a numeral in which single underscores may stand between
    digits. -/
def numeralDigits? (t : Text) : Option Text :=
  let groups := splitOn '_' t
  if groups.all fun g => !g.isEmpty && g.all isDigit then some groups.flatten else none

/-- The number a text writes in decimal, if it is one and is short enough. -/
def readNat? (t : Text) : Option Nat :=
  (numeralDigits? t).bind fun digits =>
    if isShortNumeral digits then some (numeralValue digits) else none

/-- The characters that may stand around a numeral: the blanks but for the four
    information separators. -/
def isNumeralBlank (c : Char) : Bool :=
  isBlank c && !(0x1c ≤ c.toNat && c.toNat ≤ 0x1f)

/-- The integer a text writes in decimal: blanks around it and one sign before
    the digits are allowed. -/
def readInt? (t : Text) : Option Int :=
  match trimBy isNumeralBlank t with
  | '-' :: digits => (readNat? digits).map fun n => -(n : Int)
  | '+' :: digits => (readNat? digits).map fun n => (n : Int)
  | digits => (readNat? digits).map fun n => (n : Int)

end Text

end QueryDesk
