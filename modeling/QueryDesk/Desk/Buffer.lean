import QueryDesk.Text.Measure

/-!
# Buffers

A buffer is the text in a widget, with a cursor. The text is kept in blocks, one
for each line, with a paragraph separator between them: text put into a buffer
is broken into blocks at every carriage return, line feed, pair of the two, and
paragraph separator. A line separator is no break and stays inside its block.

The two ends of the cursor are measured in sixteen-bit units from the start of
the buffer, and a block break takes one unit.

The widget that holds the text belongs to a library of which only the behaviour is
known, and all that is proved about the desk's editors assumes this of it:

* A carriage return, a line feed, the pair of the two and U+2029 break a text into
  blocks, and nothing else does. No character is dropped or replaced on the way in.
* The text is given back with a line feed for each break, and as it is shown also
  with one for each U+2028 and a space for each U+00A0.
* A cursor is put to any position of the text, and one outside the text is ignored.
* Positions, block numbers and columns have no bound.

## Main definitions

* `Buffer`: Blocks with a cursor.
* `Buffer.ofText`: A buffer that holds a text.
* `Buffer.insert`: Text put in the place of what is selected.
* `Buffer.append`: Text put into a block of its own at the end.
* `Buffer.sourceText`: The blocks as lines, with every character as it was typed.
* `Buffer.plainText`: The blocks as lines, as they are shown.
* `Buffer.select`: The cursor moved.
* `Buffer.locate`: The block and the column of a position.
* `Buffer.clamp`: The block and the column nearest to a point.
-/

namespace QueryDesk

/-- A text in blocks, and a cursor in it. -/
structure Buffer where
  /-- The blocks with a separator between each two. -/
  content : Text
  /-- The end of the cursor that stays when the other one is moved. -/
  anchor : Nat
  /-- The end of the cursor that moves. -/
  position : Nat
  /-- Text was put in since the buffer was filled or saved. -/
  modified : Bool
  deriving DecidableEq, Repr

namespace Buffer

/-- The paragraph separator, which stands between two blocks. -/
def blockBreak : Char := Char.ofNat 0x2029

/-- The text with each line break a buffer knows as a block break. -/
def broken : Text → Text
  | [] => []
  | '\r' :: '\n' :: rest => blockBreak :: broken rest
  | c :: rest => (if c = '\r' ∨ c = '\n' then blockBreak else c) :: broken rest

/-- A buffer without text. -/
def empty : Buffer := ⟨[], 0, 0, false⟩

/-- A buffer that holds a text, with the cursor at its start. -/
def ofText (t : Text) : Buffer := ⟨broken t, 0, 0, false⟩

/-- The blocks. There is always one. -/
def blocks (buffer : Buffer) : List Text :=
  Text.splitOn blockBreak buffer.content

/-- A character of the content as it stands in a source file. -/
def sourceChar (c : Char) : Char :=
  if c = blockBreak then '\n' else c

/-- The blocks as lines, with every character as it was typed. -/
def sourceText (buffer : Buffer) : Text :=
  buffer.content.map sourceChar

/-- A character of the content as it is shown: both separators break a line, and
    a space that keeps words together is a space. -/
def plainChar (c : Char) : Char :=
  if c.toNat = 0x2028 ∨ c = blockBreak then '\n' else if c.toNat = 0xa0 then ' ' else c

/-- The blocks as lines, as they are shown. -/
def plainText (buffer : Buffer) : Text :=
  buffer.content.map plainChar

/-- The last position. -/
def length (buffer : Buffer) : Nat :=
  Text.unitLength buffer.content

/-- The lesser end of the cursor. -/
def selectionStart (buffer : Buffer) : Nat :=
  min buffer.anchor buffer.position

/-- The greater end of the cursor. -/
def selectionStop (buffer : Buffer) : Nat :=
  max buffer.anchor buffer.position

/-- Something is selected. -/
def hasSelection (buffer : Buffer) : Bool :=
  buffer.anchor != buffer.position

/-- A position of the buffer. -/
def admits (buffer : Buffer) (position : Int) : Bool :=
  0 ≤ position && position ≤ buffer.length

/-- The cursor put to a position. One outside the buffer is ignored. -/
def place (buffer : Buffer) (position : Int) : Buffer :=
  if buffer.admits position then
    { buffer with anchor := position.toNat, position := position.toNat }
  else buffer

/-- The moving end of the cursor put to a position. One outside the buffer is
    ignored. -/
def extend (buffer : Buffer) (position : Int) : Buffer :=
  if buffer.admits position then { buffer with position := position.toNat } else buffer

/-- The cursor put to a position, and its moving end perhaps to another. -/
def select (buffer : Buffer) (start : Int) (stop : Option Int) : Buffer :=
  match stop with
  | none => buffer.place start
  | some stop => (buffer.place start).extend stop

/-- The content before what is selected. -/
def before (buffer : Buffer) : Text :=
  buffer.content.take (Text.unitIndex buffer.content buffer.selectionStart)

/-- The content after what is selected. -/
def after (buffer : Buffer) : Text :=
  buffer.content.drop (Text.unitIndex buffer.content buffer.selectionStop)

/-- The position after a text that is put in the place of what is selected. -/
def positionAfter (buffer : Buffer) (t : Text) : Nat :=
  buffer.selectionStart + Text.unitLength t

/-- A text put in the place of what is selected, with the cursor moved on by the
    length of the text. Also the empty text counts as a change. Between the two
    units of one character the text goes after that character, and the cursor
    then stays one unit behind the end of the text. -/
def insert (buffer : Buffer) (t : Text) : Buffer where
  content := buffer.before ++ broken t ++ buffer.after
  anchor := buffer.positionAfter (broken t)
  position := buffer.positionAfter (broken t)
  modified := true

/-- A text put into blocks of its own at the end. The first one put into a
    buffer without text takes the block that is there. -/
def append (buffer : Buffer) (t : Text) : Buffer :=
  { buffer with
    content :=
      if buffer.content.isEmpty then broken t else buffer.content ++ blockBreak :: broken t }

/-- The position at which a block starts. -/
def blockStart (blocks : List Text) (block : Nat) : Nat :=
  Text.total ((blocks.take block).map fun t => Text.unitLength t + 1)

/-- The block and the column of a position among blocks. -/
def locateIn : List Text → Nat → Nat × Nat
  | [], position => (0, position)
  | [_], position => (0, position)
  | block :: rest, position =>
      if position ≤ Text.unitLength block then (0, position)
      else
        let (number, column) := locateIn rest (position - (Text.unitLength block + 1))
        (number + 1, column)

/-- The block and the column of a position. -/
def locate (buffer : Buffer) (position : Nat) : Nat × Nat :=
  locateIn buffer.blocks position

/-- The block and the column nearest to a point. -/
def clamp (buffer : Buffer) (block column : Int) : Nat × Nat :=
  let blocks := buffer.blocks
  let block := min block.toNat (blocks.length - 1)
  (block, min column.toNat (Text.unitLength ((blocks[block]?).getD [])))

end Buffer

end QueryDesk
