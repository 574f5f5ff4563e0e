import QueryDesk.Text.Digit

/-!
# Markers

The tool begins a line about a place in a source file with a marker: the file's
path, a line and a column, perhaps a second line and column, and a colon. The
line and the column stand apart by a colon or a point, the two ends by a hyphen.
One blank after the last colon belongs to the marker.

A path in a marker holds no colon, so the first colon ends it; a number ends
where no digit follows. That leaves one way to read a marker, and no reading
has to be taken back.

## Main definitions

* `Location`: A place in a source file, or a range.
* `Location.label`: How a location is written.
* `Marker`: The parts of a marker as they stand in a line.
* `Marker.match?`: The marker at the start of a line.
* `Marker.read`: The location of the marker at the start of a line, and the
  marker's length.
-/

namespace QueryDesk

/-- A place in a source file, with the line and column of a range's end when
    there is one. -/
structure Location where
  path : Text
  line : Int
  column : Int
  endLine : Option Int
  endColumn : Option Int
  deriving DecidableEq, Repr

/-- How a location is written. A range needs both the line and the column of its
    end. -/
def Location.label (location : Location) : Text :=
  let point := location.path ++ ':' :: Text.ofInt location.line ++ ':' :: Text.ofInt location.column
  match location.endLine, location.endColumn with
  | some line, some column => point ++ '-' :: Text.ofInt line ++ ':' :: Text.ofInt column
  | _, _ => point

/-- A line and a column as runs of digits. -/
structure DigitPair where
  line : Text
  column : Text
  deriving DecidableEq, Repr

/-- The parts of a marker, and how many characters of its line it takes. -/
structure Marker where
  path : Text
  start : DigitPair
  stop : Option DigitPair
  length : Nat
  deriving DecidableEq, Repr

namespace Marker

/-- The character can begin a path. -/
def beginsPath (c : Char) : Bool :=
  !(Text.isBlank c || c == ':')

/-- The character can stand in a path after its first. -/
def continuesPath (c : Char) : Bool :=
  !(c == ':' || c == '\n')

/-- The character stands between a line and a column. -/
def isSeparator (c : Char) : Bool :=
  c == ':' || c == '.'

/-- The path at the start of a line, and what follows the colon after it. -/
def path? (t : Text) : Option (Text × Text) :=
  match t with
  | [] => none
  | c :: rest =>
      if beginsPath c then
        match rest.dropWhile continuesPath with
        | ':' :: more => some (c :: rest.takeWhile continuesPath, more)
        | _ => none
      else none

/-- A run of digits at the start of a text, and what follows it. -/
def digits? (t : Text) : Option (Text × Text) :=
  let run := t.takeWhile Text.isDigit
  if run.isEmpty then none else some (run, t.dropWhile Text.isDigit)

/-- A line and a column at the start of a text, and what follows them. -/
def pair? (t : Text) : Option (DigitPair × Text) :=
  match digits? t with
  | none => none
  | some (line, rest) =>
      match rest with
      | [] => none
      | separator :: rest =>
          if isSeparator separator then
            (digits? rest).map fun (column, rest) => (⟨line, column⟩, rest)
          else none

/-- What follows the last colon of a marker, without the one blank that belongs
    to it. -/
def afterColon (rest : Text) : Text :=
  match rest with
  | ' ' :: more => more
  | '\t' :: more => more
  | _ => rest

/-- The end of a range when a hyphen comes next, and what follows it. -/
def stop? (t : Text) : Option (Option DigitPair × Text) :=
  match t with
  | '-' :: rest => (pair? rest).map fun (stop, rest) => (some stop, rest)
  | _ => some (none, t)

/-- The marker at the start of a line. -/
def match? (t : Text) : Option Marker :=
  match path? t with
  | none => none
  | some (path, rest) =>
      match pair? rest with
      | none => none
      | some (start, rest) =>
          match stop? rest with
          | none => none
          | some (stop, rest) =>
              match rest with
              | ':' :: rest => some ⟨path, start, stop, t.length - (afterColon rest).length⟩
              | _ => none

/-- Every number of the marker is short enough to be converted. -/
def isShort (marker : Marker) : Bool :=
  let short := fun (pair : DigitPair) =>
    Text.isShortNumeral pair.line && Text.isShortNumeral pair.column
  short marker.start && marker.stop.all short

/-- The location a marker names. -/
def location (marker : Marker) : Location where
  path := marker.path
  line := Text.numeralValue marker.start.line
  column := Text.numeralValue marker.start.column
  endLine := marker.stop.map fun stop => (Text.numeralValue stop.line : Int)
  endColumn := marker.stop.map fun stop => (Text.numeralValue stop.column : Int)

/-- What reading a line for a marker gives. -/
inductive Reading
  /-- The line begins with no marker. -/
  | plain
  /-- The line begins with a marker of some length. -/
  | marked (location : Location) (length : Nat)
  /-- The line begins with a marker that has too long a number. -/
  | tooLong
  deriving DecidableEq, Repr

/-- The location of the marker at the start of a line. -/
def read (t : Text) : Reading :=
  match match? t with
  | none => .plain
  | some marker =>
      if marker.isShort then .marked marker.location marker.length else .tooLong

end Marker

end QueryDesk
