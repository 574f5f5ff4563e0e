import QueryDesk.Host.Resolve
import QueryDesk.Text.Measure

/-!
# Positions

An editor counts characters from one. The tool wants the offset of a byte in the
file on disk, counted from zero. When the file on disk has as many characters as
the editor's text, each is measured on disk, where a pair of carriage return and
line feed is one character of two bytes, and each byte of a broken part counts
as one character. Otherwise the editor's own text is measured.

## Main definitions

* `Selection`: A cursor or a range of characters.
* `Selection.ofValues`: A selection between values of any kind.
* `Descriptor`: A file and one or two byte offsets, as the tool wants them.
* `Position.diskWidths`: The bytes of each character of a file.
* `Position.byteOffset`: The bytes before a position of a text.
* `Position.ofOffset`: The position at a byte offset of a text.
* `Host.measure`: A file and how positions in it are measured.
* `Host.describe`: The descriptor of a selection in a file.
-/

namespace QueryDesk

/-- A cursor, or a range from a first position to the one after its last
    character. Positions count characters from one. -/
structure Selection where
  start : Int
  stop : Option Int
  deriving DecidableEq, Repr

namespace Selection

/-- The selection is a cursor. -/
def isPoint (selection : Selection) : Bool :=
  selection.stop.isNone

/-- The selection between two positions in either order. -/
def ofBounds (a b : Int) : Selection :=
  if a = b then ⟨a, none⟩ else ⟨min a b, some (max a b)⟩

/-- The selection with ends that may be values of any kind, of which the first is
    looked at first. Without a second one it is a cursor. -/
def ofValues (start : Json) (stop : Option Json) : Except Failure Selection :=
  match start.asInt, stop.map Json.asInt with
  | .error failure, _ => .error failure
  | .ok _, some (.error failure) => .error failure
  | .ok start, none => .ok ⟨start, none⟩
  | .ok start, some (.ok stop) => .ok ⟨start, some stop⟩

end Selection

/-- A file and the byte offset of a point in it, or of the two ends of a
    range. -/
structure Descriptor where
  path : Text
  start : Int
  stop : Option Int
  deriving DecidableEq, Repr

/-- How a file and one or two offsets are written on the tool's command line. -/
def Descriptor.write (path start : Text) (stop : Option Text) : Text :=
  let point := path ++ ':' :: start
  match stop with
  | none => point
  | some stop => point ++ '-' :: stop

/-- How a descriptor is written on the tool's command line. -/
def Descriptor.format (position : Descriptor) : Text :=
  Descriptor.write position.path (Text.ofInt position.start) (position.stop.map Text.ofInt)

namespace Position

/-- The characters of a file's bytes, with `none` for each byte of a broken
    part. -/
def diskChars (bytes : Bytes) : List (Option Char) :=
  (Utf8.segments bytes).flatMap fun
    | .char c => [some c]
    | .broken part => part.map fun _ => none

/-- The bytes each editor character takes on disk, where a carriage return and
    the line feed after it are one. -/
def pairedWidths : List (Option Char) → List Nat
  | [] => []
  | some '\r' :: some '\n' :: rest => 2 :: pairedWidths rest
  | some c :: rest => Text.byteWidth c :: pairedWidths rest
  | none :: rest => 1 :: pairedWidths rest

/-- The bytes each editor character of a file takes. -/
def diskWidths (bytes : Bytes) : List Nat :=
  pairedWidths (diskChars bytes)

/-- The number of characters before a position, when there are `count` in all.
    A position before the first is at it, one past the last is after it. -/
def index (count : Nat) (position : Int) : Nat :=
  min (position - 1).toNat count

/-- The bytes before a position of a text. -/
def byteOffset (text : Text) (position : Int) : Nat :=
  Text.byteLength (text.take (index text.length position))

/-- The bytes before a position, when the characters take the given widths. -/
def widthOffset (widths : List Nat) (position : Int) : Nat :=
  Text.total (widths.take (index widths.length position))

/-- The position at a byte offset of a text, the one after a character when the
    offset is inside it. -/
def ofOffset (text : Text) (offset : Int) : Nat :=
  Text.reach Text.byteWidth offset.toNat text + 1

/-- The selection between the byte offsets of a descriptor. -/
def selectionOf (text : Text) (position : Descriptor) : Selection where
  start := ofOffset text position.start
  stop := position.stop.map fun offset => ofOffset text offset

/-- The descriptor of a selection by the offset of each position, the lesser
    offset first. -/
def descriptor (path : Text) (offset : Int → Nat) (selection : Selection) : Descriptor :=
  match selection.stop with
  | none => ⟨path, offset selection.start, none⟩
  | some stop =>
      let a := offset selection.start
      let b := offset stop
      ⟨path, (min a b : Nat), some (max a b : Nat)⟩

/-- The offset of a position in a text that has as many characters as the file,
    measured on disk, or else measured on the text. -/
def textOffset (widths : Option (List Nat)) (text : Text) (position : Int) : Nat :=
  match widths with
  | none => byteOffset text position
  | some widths =>
      if widths.length = text.length then widthOffset widths position else byteOffset text position

end Position

namespace Host

/-- The bytes of each character of the file at a path, none when the file cannot
    be read. -/
def charWidths (host : Host) (path : Text) : Except Failure (Option (List Nat)) :=
  match host.readBytes (FilePath.parse path).text with
  | .ok bytes => .ok (some (Position.diskWidths bytes))
  | .error (.file (.refused _ _ _)) => .ok none
  | .error failure => .error failure

/-- The canonical path of a file and the byte offset that each position in it
    has. Without the editor's text the file is read and its own characters
    count. -/
def measure (host : Host) (path : Text) (text : Option Text) :
    Except Failure (Text × (Int → Nat)) :=
  match host.canonicalPath path with
  | .error failure => .error failure
  | .ok path =>
      match text with
      | none =>
          match host.readBytes (FilePath.parse path).text with
          | .error failure => .error failure
          | .ok bytes => .ok (path, Position.byteOffset (Utf8.decodeLossy bytes))
      | some text =>
          match host.charWidths path with
          | .error failure => .error failure
          | .ok widths => .ok (path, Position.textOffset widths text)

/-- The descriptor of a selection in a file. What keeps a selection from being
    known matters only when the file could be measured. -/
def describe (host : Host) (path : Text) (selection : Except Failure Selection)
    (text : Option Text) : Except Failure Descriptor :=
  match host.measure path text with
  | .error failure => .error failure
  | .ok (path, offset) => selection.map (Position.descriptor path offset)

end Host

end QueryDesk
