import QueryDesk.Text.Printable

/-!
# Quoted texts

A text between quotes, in the form diagnostics show it: single quotes unless the
text holds a single quote and no double one, a backslash before the quote in use
and before a backslash, short forms for the tab and the two line ends, and a
hexadecimal escape for every other character that is not printable.

## Main definitions

* `Text.hex`: A number in hexadecimal with a least number of digits.
* `Text.quoted`: The text between quotes.
-/

namespace QueryDesk

namespace Text

/-- The number in lower-case hexadecimal with at least `width` digits. -/
def hex (width n : Nat) : Text :=
  let digits := Nat.toDigits 16 n
  List.replicate (width - digits.length) '0' ++ digits

/-- The escape of a character that is not printable, by the size of its code
    point. -/
def hexEscape (c : Char) : Text :=
  let n := Unpaired.code c
  if n < 0x100 then '\\' :: 'x' :: hex 2 n
  else if n < 0x10000 then '\\' :: 'u' :: hex 4 n
  else '\\' :: 'U' :: hex 8 n

/-- The quote that a text is shown in. -/
def quoteMark (t : Text) : Char :=
  if t.elem '\'' && !t.elem '"' then '"' else '\''

/-- How one character stands between quotes. -/
def quotedChar (mark c : Char) : Text :=
  if c = mark || c = '\\' then ['\\', c]
  else if c = '\n' then ['\\', 'n']
  else if c = '\r' then ['\\', 'r']
  else if c = '\t' then ['\\', 't']
  else if isPrintable c then [c]
  else hexEscape c

/-- The text between quotes. -/
def quoted (t : Text) : Text :=
  let mark := quoteMark t
  mark :: t.flatMap (quotedChar mark) ++ [mark]

/-- A list of texts in brackets, each between quotes. -/
def quotedList (ts : List Text) : Text :=
  '[' :: join ", " (ts.map quoted) ++ [']']

end Text

end QueryDesk
