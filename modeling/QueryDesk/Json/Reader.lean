import QueryDesk.Json.Basic
import QueryDesk.Text.Digit

/-!
# Reading JSON

A reader of one value, with the words `NaN`, `Infinity` and `-Infinity` as
numbers. Of two fields with one key the later one counts, in the place of the
earlier. A text may not hold a control character, and an integer may not have
more than `Text.maxDigits` digits; a number with a fraction or an exponent has
no such limit and may come out infinite. Lists and objects may be nested only so
deep.

## Main definitions

* `Json.readString`: The text after an opening quote.
* `Json.readNumber`: A number at the start of a text.
* `Json.readWithin`: The value a whole text writes, nested at most so deep, or
  what is wrong with the text.
* `Json.read`: The same with the depth that is allowed everywhere.
* `Json.Stop.message`: The text shown for what is wrong.
-/

namespace QueryDesk

namespace Json

/-- The blanks allowed between the parts of a value. -/
def isSpace (c : Char) : Bool :=
  c = ' ' || c = '\t' || c = '\n' || c = '\r'

/-- The text from its first character that is no blank. -/
def skip (t : Text) : Text :=
  t.dropWhile isSpace

/-- The value of a hexadecimal digit. -/
def hexValue? (c : Char) : Option Nat :=
  if '0' ≤ c ∧ c ≤ '9' then some (c.toNat - '0'.toNat)
  else if 'a' ≤ c ∧ c ≤ 'f' then some (c.toNat - 'a'.toNat + 10)
  else if 'A' ≤ c ∧ c ≤ 'F' then some (c.toNat - 'A'.toNat + 10)
  else none

/-- The value of four hexadecimal digits. -/
def hexQuad? (a b c d : Char) : Option Nat := do
  let a ← hexValue? a
  let b ← hexValue? b
  let c ← hexValue? c
  let d ← hexValue? d
  pure (4096 * a + 256 * b + 16 * c + d)

/-- The character that a letter after a backslash stands for. -/
def shortEscape? (c : Char) : Option Char :=
  if c = '"' || c = '\\' || c = '/' then some c
  else if c = 'n' then some '\n'
  else if c = 't' then some '\t'
  else if c = 'r' then some '\r'
  else if c = 'b' then some (Char.ofNat 8)
  else if c = 'f' then some (Char.ofNat 12)
  else none

/-- What can be wrong with a text that should write a value. -/
inductive Problem
  | byteOrderMark
  | noValue
  | noName
  | noColon
  | noComma
  | controlCharacter
  | openString
  | badEscape
  | badUnicodeEscape
  | extraData
  /-- Lists and objects are nested deeper than is allowed. -/
  | tooDeep
  /-- An integer has too many digits to be converted. -/
  | longInteger (digits : Nat)
  deriving DecidableEq, Repr

/-- A problem, and how many characters of the text are left where it is. -/
structure Stop where
  problem : Problem
  left : Nat
  deriving DecidableEq, Repr

/-- What a part of the reader gives: a result and the text after it. -/
abbrev Reads (α : Type) := Except Stop (α × Text)

/-- The sixteen-bit or larger units up to the closing quote, and what follows
    it. A character written as itself is one unit, also a large one. The first
    argument says how much text was left at the opening quote. -/
def readUnits (opened : Nat) : Text → Reads (List Nat)
  | [] => .error ⟨.openString, opened⟩
  | '"' :: rest => .ok ([], rest)
  | '\\' :: 'u' :: a :: b :: c :: d :: rest =>
      match hexQuad? a b c d, rest with
      -- At least the closing quote has to follow the digits.
      | some unit, _ :: _ =>
          match readUnits opened rest with
          | .ok (units, after) => .ok (unit :: units, after)
          | .error stop => .error stop
      | _, _ => .error ⟨.badUnicodeEscape, rest.length + 5⟩
  | '\\' :: 'u' :: rest => .error ⟨.badUnicodeEscape, rest.length + 1⟩
  | ['\\'] => .error ⟨.openString, opened⟩
  | '\\' :: e :: rest =>
      match shortEscape? e with
      | none => .error ⟨.badEscape, rest.length + 2⟩
      | some c =>
          match readUnits opened rest with
          | .ok (units, after) => .ok (c.toNat :: units, after)
          | .error stop => .error stop
  | c :: rest =>
      if c.toNat < 0x20 then .error ⟨.controlCharacter, rest.length + 1⟩
      else
        match readUnits opened rest with
        | .ok (units, after) => .ok (c.toNat :: units, after)
        | .error stop => .error stop

/-- The unit is the first of a pair that stands for one character. -/
def isHighUnit (n : Nat) : Bool :=
  0xd800 ≤ n && n < 0xdc00

/-- The unit is the second of a pair that stands for one character. -/
def isLowUnit (n : Nat) : Bool :=
  0xdc00 ≤ n && n < 0xe000

/-- The characters of a list of units. A unit of a pair that comes without the
    other one is held by its stand-in. -/
def ofUnits : List Nat → Text
  | [] => []
  | n :: rest =>
      if isHighUnit n then
        match rest with
        | low :: more =>
            if isLowUnit low then
              Char.ofNat (0x10000 + 1024 * (n - 0xd800) + (low - 0xdc00)) :: ofUnits more
            else Unpaired.standIn n :: ofUnits (low :: more)
        | [] => [Unpaired.standIn n]
      else (if isLowUnit n then Unpaired.standIn n else Char.ofNat n) :: ofUnits rest

/-- The text after an opening quote and up to the closing one, and what follows
    it. -/
def readString (t : Text) : Reads Text :=
  match readUnits (t.length + 1) t with
  | .ok (units, rest) => .ok (ofUnits units, rest)
  | .error stop => .error stop

/-- The character is an ASCII digit. -/
def isDigit (c : Char) : Bool :=
  '0' ≤ c && c ≤ '9'

/-- The number that a run of ASCII digits writes. -/
def digitsValue (t : Text) : Nat :=
  t.foldl (fun n c => 10 * n + (c.toNat - '0'.toNat)) 0

/-- The digits of the integer part of a number: one zero, or a run that does not
    begin with zero. -/
def integerPart? (t : Text) : Option (Text × Text) :=
  match t with
  | [] => none
  | c :: rest =>
      if c = '0' then some (['0'], rest)
      else if isDigit c then some (t.takeWhile isDigit, t.dropWhile isDigit)
      else none

/-- The digits after a point, if a point with digits after it comes next. -/
def fractionPart (t : Text) : Option Text × Text :=
  match t with
  | '.' :: rest =>
      if (rest.takeWhile isDigit).isEmpty then (none, t)
      else (some (rest.takeWhile isDigit), rest.dropWhile isDigit)
  | _ => (none, t)

/-- The sign and the digits of a power of ten, if one comes next. -/
def exponentPart (t : Text) : Option Int × Text :=
  match t with
  | [] => (none, t)
  | e :: rest =>
      if e = 'e' || e = 'E' then
        let (negative, digits) : Bool × Text :=
          match rest with
          | '-' :: more => (true, more)
          | '+' :: more => (false, more)
          | more => (false, more)
        if (digits.takeWhile isDigit).isEmpty then (none, t)
        else
          let n : Int := digitsValue (digits.takeWhile isDigit)
          (some (if negative then -n else n), digits.dropWhile isDigit)
      else (none, t)

/-- A number at the start of a text, without its sign. The first argument says
    how much text was left at the sign. -/
def readMagnitude (opened : Nat) (negative : Bool) (t : Text) : Reads Json :=
  match integerPart? t with
  | none => .error ⟨.noValue, opened⟩
  | some (whole, rest) =>
      let (fraction, rest) := fractionPart rest
      let (exponent, rest) := exponentPart rest
      if fraction.isNone && exponent.isNone then
        if Text.isShortNumeral whole then
          let n : Int := digitsValue whole
          .ok (.int (if negative then -n else n), rest)
        else .error ⟨.longInteger whole.length, opened⟩
      else
        let decimals := fraction.getD []
        let x := Binary64.ofDecimal negative (digitsValue (whole ++ decimals))
          (exponent.getD 0 - decimals.length)
        .ok (.float x, rest)

/-- A number at the start of a text. -/
def readNumber (t : Text) : Reads Json :=
  match t with
  | '-' :: rest => readMagnitude t.length true rest
  | _ => readMagnitude t.length false t

/-- The words that stand for a value. -/
def constants : List (Text × Json) := [
  ("null", .null), ("true", .bool true), ("false", .bool false), ("NaN", .float .nan),
  ("Infinity", .float (.infinity false)), ("-Infinity", .float (.infinity true))]

/-- A word or a number at the start of a text. -/
def readScalar (t : Text) : Reads Json :=
  match constants.find? fun (word, _) => word.isPrefixOf t with
  | some (word, value) => .ok (value, t.drop word.length)
  | none => readNumber t

mutual

/-- The value at the start of a text, and what follows it. The first argument
    bounds the number of steps, the second one how deep the value may be
    nested. -/
def readValue : Nat → Nat → Text → Reads Json
  | 0, _, t => .error ⟨.noValue, t.length⟩
  | fuel + 1, room, t =>
      match t with
      | '"' :: rest =>
          match readString rest with
          | .ok (s, rest) => .ok (.str s, rest)
          | .error stop => .error stop
      | '[' :: rest =>
          match room with
          | 0 => .error ⟨.tooDeep, t.length⟩
          | room + 1 =>
              match skip rest with
              | ']' :: rest => .ok (.arr [], rest)
              | rest =>
                  match readItems fuel room rest with
                  | .ok (items, rest) => .ok (.arr items, rest)
                  | .error stop => .error stop
      | '\x7b' :: rest =>
          match room with
          | 0 => .error ⟨.tooDeep, t.length⟩
          | room + 1 =>
              match skip rest with
              | '\x7d' :: rest => .ok (.obj [], rest)
              | rest =>
                  match readFields fuel room rest with
                  | .ok (fields, rest) => .ok (.obj (Table.ofEntries fields), rest)
                  | .error stop => .error stop
      | _ => readScalar t

/-- The items of a list up to its closing bracket. -/
def readItems : Nat → Nat → Text → Reads (List Json)
  | 0, _, t => .error ⟨.noValue, t.length⟩
  | fuel + 1, room, t =>
      match readValue fuel room t with
      | .error stop => .error stop
      | .ok (item, rest) =>
          match skip rest with
          | ']' :: rest => .ok ([item], rest)
          | ',' :: rest =>
              match readItems fuel room (skip rest) with
              | .ok (items, rest) => .ok (item :: items, rest)
              | .error stop => .error stop
          | rest => .error ⟨.noComma, rest.length⟩

/-- The fields of an object up to its closing brace, in the order they are
    written. -/
def readFields : Nat → Nat → Text → Reads (List (Text × Json))
  | 0, _, t => .error ⟨.noName, t.length⟩
  | fuel + 1, room, t =>
      match t with
      | '"' :: rest =>
          match readString rest with
          | .error stop => .error stop
          | .ok (key, rest) =>
              match skip rest with
              | ':' :: rest =>
                  match readValue fuel room (skip rest) with
                  | .error stop => .error stop
                  | .ok (value, rest) =>
                      match skip rest with
                      | '\x7d' :: rest => .ok ([(key, value)], rest)
                      | ',' :: rest =>
                          match readFields fuel room (skip rest) with
                          | .ok (fields, rest) => .ok ((key, value) :: fields, rest)
                          | .error stop => .error stop
                      | rest => .error ⟨.noComma, rest.length⟩
              | rest => .error ⟨.noColon, rest.length⟩
      | _ => .error ⟨.noName, t.length⟩

end

/-- The value a whole text writes, nested at most so deep and with blanks allowed
    around it, or the first thing that is wrong with the text. -/
def readWithin (room : Nat) (t : Text) : Except Stop Json :=
  if t.head? == some '\ufeff' then .error ⟨.byteOrderMark, t.length⟩
  else
    match readValue (2 * t.length + 2) room (skip t) with
    | .error stop => .error stop
    | .ok (value, rest) =>
        let rest := skip rest
        if rest.isEmpty then .ok value else .error ⟨.extraData, rest.length⟩

/-- How deep lists and objects may be nested in a text. Each is read from within the
    reading of the one around it, and no more than a thousand calls are made inside of
    each other. The number is what is left of these where the settings are loaded, and
    is only as exact as the count of the calls before. -/
def maxNesting : Nat := 988

/-- The value a whole text writes, nested no deeper than is allowed. -/
def read (t : Text) : Except Stop Json :=
  readWithin maxNesting t

/-- The words for a problem. -/
def Problem.words : Problem → Text
  | .byteOrderMark => "Unexpected UTF-8 BOM (decode using utf-8-sig)"
  | .noValue => "Expecting value"
  | .noName => "Expecting property name enclosed in double quotes"
  | .noColon => "Expecting ':' delimiter"
  | .noComma => "Expecting ',' delimiter"
  | .controlCharacter => "Invalid control character at"
  | .openString => "Unterminated string starting at"
  | .badEscape => "Invalid \\escape"
  | .badUnicodeEscape => "Invalid \\uXXXX escape"
  | .extraData => "Extra data"
  | .tooDeep => "Lists and objects nested too deep"
  | .longInteger digits =>
      "Exceeds the limit (" ++ Text.ofNat Text.maxDigits
        ++ " digits) for integer string conversion: value has " ++ Text.ofNat digits
        ++ " digits; use sys.set_int_max_str_digits() to increase the limit"

/-- The text shown for a problem in a text: what is wrong, and the line, the
    column and the index of the character where it is. -/
def Stop.message (t : Text) (stop : Stop) : Text :=
  match stop.problem with
  | .longInteger digits => (Problem.longInteger digits).words
  | problem =>
      let read := t.take (t.length - stop.left)
      let column := (read.reverse.takeWhile (· != '\n')).length + 1
      problem.words ++ ": line " ++ Text.ofNat (read.count '\n' + 1) ++ " column "
        ++ Text.ofNat column ++ " (char " ++ Text.ofNat read.length ++ ")"

end Json

end QueryDesk
