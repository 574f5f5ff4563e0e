import QueryDesk.Text.Unpaired

/-!
# Texts

A text is a list of Unicode characters. Everything the desk shows, reads or
sends is a text, and every position into one counts characters from its start,
so that cutting a text is `List.take` and `List.drop` and nothing about an
encoding leaks into the rules that use it.

Blanks are the characters that separate words and that trimming removes. The
class is Unicode's: the ASCII blanks and separators, the next-line control, and
the space separators with the two line separators. The zero-width characters
are not in it.

## Main definitions

* `Text`: A list of characters, written as a string literal.
* `Text.isBlank`: The characters that separate words.
* `Text.trim`: A text without the blanks at its ends.
* `Text.pieces`: The parts of a text between separators, empty ones included.
* `Text.words`: The maximal parts of a text that hold no blank.
-/

namespace QueryDesk

/-- A sequence of Unicode characters. -/
abbrev Text := List Char

instance : Coe String Text := ⟨String.toList⟩

namespace Text

/-- The characters that count as blank. -/
def isBlank (c : Char) : Bool :=
  let n := c.toNat
  (9 ≤ n && n ≤ 13) || (0x1c ≤ n && n ≤ 0x20) || n == 0x85 || n == 0xa0 || n == 0x1680
    || (0x2000 ≤ n && n ≤ 0x200a) || n == 0x2028 || n == 0x2029 || n == 0x202f
    || n == 0x205f || n == 0x3000

/-- The text without the longest runs at its two ends of characters that `p`
    picks out. -/
def trimBy (p : Char → Bool) (t : Text) : Text :=
  ((t.dropWhile p).reverse.dropWhile p).reverse

/-- The text without the blanks at its two ends. -/
def trim (t : Text) : Text :=
  trimBy isBlank t

/-- The parts of a text between the characters that `p` picks out. There is
    always one part more than there are such characters. -/
def pieces (p : Char → Bool) : Text → List Text
  | [] => [[]]
  | c :: rest =>
      if p c then [] :: pieces p rest
      else
        match pieces p rest with
        | [] => [[c]]
        | part :: parts => (c :: part) :: parts

/-- The parts of a text between the occurrences of one character. -/
def splitOn (sep : Char) (t : Text) : List Text :=
  pieces (· == sep) t

/-- The maximal parts of a text that hold no blank. -/
def words (t : Text) : List Text :=
  (pieces isBlank t).filter (!·.isEmpty)

/-- The parts written one after the other with a separator between them. -/
def join (sep : Text) (parts : List Text) : Text :=
  sep.intercalate parts

/-- The text up to the first occurrence of a character, or all of it. -/
def before (c : Char) (t : Text) : Text :=
  t.takeWhile (· != c)

/-- The text after the first occurrence of a character, or nothing. -/
def after (c : Char) (t : Text) : Text :=
  (t.dropWhile (· != c)).drop 1

/-- The number written in decimal. -/
def ofNat (n : Nat) : Text :=
  Nat.toDigits 10 n

/-- The number written in decimal, with a minus sign below zero. -/
def ofInt : Int → Text
  | .ofNat n => ofNat n
  | .negSucc n => '-' :: ofNat (n + 1)

/-- The pattern stands somewhere in the text. -/
def contains (pattern : Text) : Text → Bool
  | [] => pattern.isEmpty
  | c :: rest => pattern.isPrefixOf (c :: rest) || contains pattern rest

/-- The first text comes before the second by the code points of their
    characters, or is the same. -/
def precedes : Text → Text → Bool
  | [], _ => true
  | _ :: _, [] => false
  | c :: s, d :: t => Unpaired.code c < Unpaired.code d || (c == d && precedes s t)

/-- The first of two texts that is not empty. -/
def orElse (t other : Text) : Text :=
  if t.isEmpty then other else t

end Text

end QueryDesk
