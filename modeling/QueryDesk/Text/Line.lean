import QueryDesk.Text.Basic

/-!
# Lines

Three views of line breaks meet in the desk, and they do not agree on what a
break is. Output of a tool is cut at every break Unicode knows (`lines`). A
source file is read with each carriage return and line feed pair taken as one
line feed and every other character kept (`unpair`), and written with each line
feed replaced by the ending that the file had. A process's output has both a
pair and a lone carriage return turned into a line feed (`normalizeBreaks`).

## Main definitions

* `LineEnding`: The two endings a source file is kept in.
* `LineEnding.detect`: The ending a file's text shows.
* `Text.lines`: The lines of a text, without their breaks.
* `Text.unpair`: Each pair of carriage return and line feed made one line feed.
* `Text.normalizeBreaks`: Every carriage return, paired or lone, made a line feed.
* `Text.withEnding`: Each line feed replaced by a given ending.
-/

namespace QueryDesk

namespace Text

/-- The characters at which a line ends. -/
def isLineBreak (c : Char) : Bool :=
  let n := c.toNat
  (10 ≤ n && n ≤ 13) || (0x1c ≤ n && n ≤ 0x1e) || n == 0x85 || n == 0x2028 || n == 0x2029

/-- The lines of a text without their breaks. A carriage return with the line
    feed after it is one break, and a break at the end starts no further line. -/
def lines : Text → List Text
  | [] => []
  | '\r' :: '\n' :: rest => [] :: lines rest
  | c :: rest =>
      if isLineBreak c then [] :: lines rest
      else
        match lines rest with
        | [] => [[c]]
        | line :: more => (c :: line) :: more

/-- Each carriage return that stands directly before a line feed is dropped. -/
def unpair : Text → Text
  | [] => []
  | '\r' :: '\n' :: rest => '\n' :: unpair rest
  | c :: rest => c :: unpair rest

/-- Each carriage return, with or without a line feed after it, becomes a line
    feed. -/
def normalizeBreaks : Text → Text
  | [] => []
  | '\r' :: '\n' :: rest => '\n' :: normalizeBreaks rest
  | c :: rest => (if c = '\r' then '\n' else c) :: normalizeBreaks rest

/-- Each line feed is written as the given ending. -/
def withEnding (ending : Text) (t : Text) : Text :=
  t.flatMap fun c => if c = '\n' then ending else [c]

/-- Some carriage return stands directly before a line feed. -/
def hasPair : Text → Bool
  | [] => false
  | '\r' :: '\n' :: _ => true
  | _ :: rest => hasPair rest

end Text

/-- The line ending a source file is kept in. -/
inductive LineEnding
  | lf
  | crlf
  deriving DecidableEq, Repr

namespace LineEnding

/-- The characters that stand for a line break on disk. -/
def text : LineEnding → Text
  | .lf => ['\n']
  | .crlf => ['\r', '\n']

/-- A file that holds one pair of carriage return and line feed is kept in
    pairs. -/
def detect (t : Text) : LineEnding :=
  if t.hasPair then .crlf else .lf

end LineEnding

end QueryDesk
