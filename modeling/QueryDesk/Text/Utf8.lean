import QueryDesk.Text.Basic

/-!
# UTF-8

A list of bytes is cut into segments: the bytes of one character, or a maximal
part that begins like a character and cannot be continued to one. Every reading
of bytes in the desk is a reading of the same segments, so the readings can be
compared segment by segment: the lossy one shows each broken part as one
replacement character, the strict one refuses any broken part, and the measuring
one of `Query.Position` counts each byte of a broken part for itself.

A part is broken as soon as a byte comes that no character could have there, so
the second byte already tells overlong forms, surrogates and values above
U+10FFFF from characters.

## Main definitions

* `Utf8.encode`: The bytes of a text.
* `Utf8.Segment`: One character of a byte list, or one broken part of it.
* `Utf8.segments`: The cut of a byte list into segments.
* `Utf8.decodeLossy`: The text with a replacement character per broken part.
* `Utf8.decode?`: The text, if no part is broken.
* `Utf8.fault?`: The first broken part, and what is said about it.
* `Encoding`: What source files can be written in.
-/

namespace QueryDesk

/-- A byte of a file or of a process's output. -/
abbrev Bytes := List UInt8

namespace Utf8

/-- The bytes of a text. -/
def encode (t : Text) : Bytes :=
  t.flatMap String.utf8EncodeChar

/-- What stands for a part that is no character. -/
def replacement : Char := '\ufffd'

/-- One character of a byte list, or one maximal part that is none. -/
inductive Segment
  | char (c : Char)
  | broken (part : Bytes)
  deriving DecidableEq, Repr

/-- For a byte that can begin a character of several bytes: how many follow, and
    the least and greatest value of the first of them. -/
def followers? (lead : UInt8) : Option (Nat × UInt8 × UInt8) :=
  let n := lead.toNat
  if n < 0xc2 then none
  else if n < 0xe0 then some (1, 0x80, 0xbf)
  else if n = 0xe0 then some (2, 0xa0, 0xbf)
  else if n = 0xed then some (2, 0x80, 0x9f)
  else if n < 0xf0 then some (2, 0x80, 0xbf)
  else if n = 0xf0 then some (3, 0x90, 0xbf)
  else if n < 0xf4 then some (3, 0x80, 0xbf)
  else if n = 0xf4 then some (3, 0x80, 0x8f)
  else none

/-- The longest run of at most `count` following bytes, the first of them within
    the given bounds. -/
def followRun : Nat → UInt8 → UInt8 → Bytes → Bytes
  | 0, _, _, _ => []
  | _ + 1, _, _, [] => []
  | count + 1, low, high, b :: rest =>
      if low ≤ b ∧ b ≤ high then b :: followRun count 0x80 0xbf rest else []

/-- The character that a first byte and all its following bytes stand for. -/
def assemble (lead : UInt8) (run : Bytes) : Char :=
  let high := lead.toNat % (64 >>> run.length)
  Char.ofNat (run.foldl (fun n b => 64 * n + b.toNat % 64) high)

/-- The segment that begins with a byte, and how many of the bytes after it
    belong to the segment. -/
def segmentAt (lead : UInt8) (rest : Bytes) : Segment × Nat :=
  if lead < 0x80 then (.char (Char.ofNat lead.toNat), 0)
  else
    match followers? lead with
    | none => (.broken [lead], 0)
    | some (count, low, high) =>
        let run := followRun count low high rest
        if run.length = count then (.char (assemble lead run), count)
        else (.broken (lead :: run), run.length)

/-- The cut of a byte list into characters and broken parts. -/
def segments : Bytes → List Segment
  | [] => []
  | lead :: rest =>
      (segmentAt lead rest).1 :: segments (rest.drop (segmentAt lead rest).2)
termination_by bytes => bytes.length
decreasing_by simp only [List.length_drop, List.length_cons]; omega

/-- The character a segment is read as when broken parts are replaced. -/
def Segment.shown : Segment → Char
  | .char c => c
  | .broken _ => replacement

/-- The character of a segment that is one. -/
def Segment.char? : Segment → Option Char
  | .char c => some c
  | .broken _ => none

/-- The text of a byte list, with one replacement character for each broken
    part. -/
def decodeLossy (bytes : Bytes) : Text :=
  (segments bytes).map Segment.shown

/-- The text of a byte list in which no part is broken. -/
def decode? (bytes : Bytes) : Option Text :=
  (segments bytes).mapM Segment.char?

/-- The first broken part of a byte list: where it is, its bytes, and how many
    bytes come after it. -/
structure Fault where
  offset : Nat
  part : Bytes
  left : Nat
  deriving DecidableEq, Repr

/-- The first broken part among segments that begin at an offset, with the given
    number of bytes from there on. -/
def faultFrom : Nat → Nat → List Segment → Option Fault
  | _, _, [] => none
  | offset, left, .char c :: rest =>
      let width := (String.utf8EncodeChar c).length
      faultFrom (offset + width) (left - width) rest
  | offset, left, .broken part :: _ => some ⟨offset, part, left - part.length⟩

/-- The first broken part of a byte list. -/
def fault? (bytes : Bytes) : Option Fault :=
  faultFrom 0 bytes.length (segments bytes)

/-- Why a part is broken: its first byte begins no character, or a byte follows
    that does not continue it, or the bytes end too early. -/
def Fault.reason (fault : Fault) : Text :=
  if ((fault.part.head?).bind followers?).isNone then "invalid start byte"
  else if fault.left = 0 then "unexpected end of data"
  else "invalid continuation byte"

/-- The text shown for bytes that are no text. -/
def Fault.message (fault : Fault) : Text :=
  let place : Text :=
    match fault.part with
    | [b] =>
        let hex := Nat.toDigits 16 b.toNat
        "byte 0x" ++ List.replicate (2 - hex.length) '0' ++ hex ++ " in position "
          ++ Text.ofNat fault.offset
    | part =>
        "bytes in position " ++ Text.ofNat fault.offset ++ "-"
          ++ Text.ofNat (fault.offset + part.length - 1)
  "'utf-8' codec can't decode " ++ place ++ ": " ++ fault.reason

end Utf8

/-- The encodings a source file can be read and written in. -/
inductive Encoding
  | utf8
  | latin1
  | ascii
  deriving DecidableEq, Repr

namespace Encoding

/-- The encoding with a name. A name that is not known means UTF-8. -/
def ofName (name : Text) : Encoding :=
  if name = "latin-1" then .latin1 else if name = "ascii" then .ascii else .utf8

/-- The text of a file, with a replacement character for what is no character
    of the encoding. -/
def decodeLossy : Encoding → Bytes → Text
  | .utf8, bytes => Utf8.decodeLossy bytes
  | .latin1, bytes => bytes.map fun b => Char.ofNat b.toNat
  | .ascii, bytes => bytes.map fun b => if b < 0x80 then Char.ofNat b.toNat else Utf8.replacement

/-- The bytes of a text, if each of its characters has some. An unpaired unit has
    none in any encoding. -/
def encode? : Encoding → Text → Option Bytes
  | .utf8, t => if t.any Unpaired.isStandIn then none else some (Utf8.encode t)
  | .latin1, t => t.mapM fun c => if c.toNat < 0x100 then some (UInt8.ofNat c.toNat) else none
  | .ascii, t => t.mapM fun c => if c.toNat < 0x80 then some (UInt8.ofNat c.toNat) else none

end Encoding

end QueryDesk
