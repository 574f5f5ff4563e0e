import QueryDesk.Files.Fault
import QueryDesk.Host.Launch
import QueryDesk.Json.Display
import QueryDesk.Query.Refusal

/-!
# Failures

Everything that can keep an operation of the desk from giving a result. Most
come from one part of the library and are wrapped here; the others are causes
that only show where several parts meet.

## Main definitions

* `Failure`: The causes.
* `Failure.message`: The text shown for a cause.
* `Failure.shown`: The form in which the debug log records a cause.
* `WriteFault.failure`: The failure that a fault of writing is.
* `Json.asInt`, `Json.asText`, `Json.thousandth`: A value where only an integer,
  a text or a number will do.
-/

namespace QueryDesk

/-- Why an operation gives no result. -/
inductive Failure
  /-- The query was refused. -/
  | query (refusal : Refusal)
  /-- The file tree refused. -/
  | file (fault : FileFault)
  /-- The system stopped while a file was written. -/
  | stopped (cause : FileCause)
  /-- A character has no bytes in the wanted encoding. -/
  | notEncodable
  /-- Bytes that have to be a text are none. -/
  | notDecodable (bytes : Bytes) (fault : Utf8.Fault)
  /-- The home directory a path begins with is not known. -/
  | unknownHome
  /-- A path that has to be resolved leads into a loop of links. -/
  | linkLoop
  /-- A numeral has more digits than are converted. -/
  | longNumeral
  /-- A value that has to be an integer is none. -/
  | notInt (fault : Json.IntFault)
  /-- A value that has to be a text is none. -/
  | notText
  /-- A settings key names no section. -/
  | emptyKey
  /-- A list put in place of a section has an item that is no pair. -/
  | notPair
  /-- A value put in place of a section has no items. -/
  | noItems
  /-- The names in a section are of kinds between which there is no order. -/
  | mixedNames
  /-- Values, links or directories are nested deeper than is followed. -/
  | tooDeep
  /-- The settings file cannot be written. -/
  | unwritable (path : Text)
  /-- A launch went wrong in a way that no operation deals with. -/
  | launch (command : List Text) (fault : LaunchFault)
  /-- The desk takes no more queries. -/
  | closed
  deriving Repr

namespace Failure

/-- The text shown for a failure. -/
def message : Failure → Text
  | .query refusal => refusal.message
  | .file fault => fault.message
  | .stopped cause => cause.label
  | .notEncodable => "some character has no bytes in the encoding"
  | .notDecodable _ fault => fault.message
  | .unknownHome => "Could not determine home directory."
  | .linkLoop => "Symlink loop"
  | .longNumeral => "Exceeds the limit (4300 digits) for integer string conversion"
  | .notInt _ => "the value is no integer"
  | .notText => "the value is no text"
  | .emptyKey => "Settings key cannot be empty."
  | .notPair => "an item of the list is no pair"
  | .noItems => "the value has no items"
  | .mixedNames => "the names in a section have no order"
  | .tooDeep => "nested too deep"
  | .unwritable path => "Could not write settings file '" ++ path ++ "'"
  | .launch command fault => fault.message command
  | .closed => "cannot schedule new futures after shutdown"

/-- How one byte stands between quotes. -/
def quotedByte (mark : Char) (b : UInt8) : Text :=
  let c := Char.ofNat b.toNat
  if 0x80 ≤ b then Text.hexEscape c else Text.quotedChar mark c

/-- Bytes between quotes, those of ASCII characters as the characters. -/
def quotedBytes (bytes : Bytes) : Text :=
  let mark := Text.quoteMark (bytes.map fun b => Char.ofNat b.toNat)
  'b' :: mark :: bytes.flatMap (quotedByte mark) ++ [mark]

/-- The failure as the debug log records it. -/
def shown : Failure → Text
  | .launch command fault => fault.shown command
  | .notDecodable bytes fault =>
      "UnicodeDecodeError('utf-8', " ++ quotedBytes bytes ++ ", " ++ Text.ofNat fault.offset
        ++ ", " ++ Text.ofNat (fault.offset + fault.part.length) ++ ", " ++ fault.reason.quoted
        ++ ")"
  | other => other.message

end Failure

namespace WriteFault

/-- What keeps a text from being written, as a failure of the desk. -/
def failure : WriteFault → Failure
  | .file fault => .file fault
  | .notEncodable => .notEncodable
  | .stopped cause => .stopped cause

end WriteFault

namespace Json

/-- The value as an integer where only an integer will do. -/
def asInt (value : Json) : Except Failure Int :=
  value.toInt.mapError .notInt

/-- The value divided by a thousand, rounded once, where only a number will do. -/
def thousandth : Json → Except Failure Binary64
  | .bool b => .ok (.ofIntRatio b.toInt 1000)
  | .int n =>
      match Binary64.ofIntRatio n 1000 with
      | .infinity _ => .error (.notInt .infinite)
      | seconds => .ok seconds
  | .float x => .ok (x.divNat 1000)
  | _ => .error (.notInt .noNumber)

/-- The value as a text where only a text will do. -/
def asText : Json → Except Failure Text
  | .str t => .ok t
  | _ => .error .notText

end Json

end QueryDesk
