import QueryDesk.Desk.Buffer
import QueryDesk.Host.Source
import QueryDesk.Query.Invocation

/-!
# Editors

An editor holds the text of one source file, or of none. It opens a file under
the path it is given and from then on knows it under the file's canonical path,
also when it saves. The ending that the lines of the file had is used again
whenever the text is written.

## Main definitions

* `Editor`: A buffer, the file it belongs to, and the ending of its lines.
* `Editor.load`: The text of a file taken into an editor.
* `Editor.save`: The text written to the editor's file or to another.
* `Editor.selection`: What is selected, in characters counted from one.
* `Editor.goTo`, `Editor.goToValues`: The cursor put to a line and a column.
* `Editor.target`: What an editor says about itself when a query is asked.
-/

namespace QueryDesk

/-- The text of one source file and where it belongs. -/
structure Editor where
  path : Option Text
  ending : LineEnding
  buffer : Buffer
  deriving DecidableEq, Repr

/-- What saving gives: the file written, empty when there was none to write to,
    and the path announced when it is another one than before. -/
structure SavedFile where
  path : Text
  announced : Option Text
  deriving DecidableEq, Repr

namespace Editor

/-- An editor without text that belongs to no file. -/
def empty : Editor := ⟨none, .lf, .empty⟩

/-- The editor's path, empty when it belongs to no file. -/
def pathText (editor : Editor) : Text :=
  editor.path.getD []

/-- The name an editor is shown under. -/
def name (editor : Editor) : Text :=
  if editor.pathText.isEmpty then "untitled" else Path.baseName editor.pathText

/-- The text as it stands in a source file. -/
def sourceText (editor : Editor) : Text :=
  editor.buffer.sourceText

/-- The editor under the canonical name of a path, and the path announced. The
    empty path belongs to no file. -/
def rename (editor : Editor) (host : Host) (path : Text) : Editor × Except Failure Text :=
  if path.isEmpty then ({ editor with path := none }, .ok [])
  else
    match host.canonicalPath path with
    | .error failure => (editor, .error failure)
    | .ok path => ({ editor with path := some path }, .ok path)

/-- The text of a file taken into the editor, and the path announced. The text
    is there before the path is known. -/
def load (editor : Editor) (host : Host) (path : Text) : Editor × Except Failure Text :=
  match host.readSource path .utf8 with
  | .error failure => (editor, .error failure)
  | .ok (text, ending) => rename { editor with ending, buffer := .ofText text } host path

/-- The editor with no changes that are not on disk. -/
def settle (editor : Editor) : Editor :=
  { editor with buffer := { editor.buffer with modified := false } }

/-- The text written to a path, or to the editor's own when it is empty. -/
def save (editor : Editor) (host : Host) (path : Text) :
    Host × Editor × Except Failure SavedFile :=
  match host.canonicalPath (path.orElse editor.pathText) with
  | .error failure => (host, editor, .error failure)
  | .ok target =>
      if target.isEmpty then (host, editor, .ok ⟨[], none⟩)
      else
        match host.writeSource target editor.sourceText editor.ending.text .utf8 with
        | (host, .error failure) => (host, editor, .error failure)
        | (host, .ok ()) =>
            -- The file is written; what is left is to know it by its new name.
            if editor.path = some target then (host, editor.settle, .ok ⟨target, none⟩)
            else
              match editor.rename host target with
              | (editor, .error failure) => (host, editor, .error failure)
              | (editor, .ok path) => (host, editor.settle, .ok ⟨target, some path⟩)

/-- The character position, counted from one, of a position of the buffer. -/
def characterAt (editor : Editor) (position : Nat) : Int :=
  (Text.unitIndex editor.sourceText position : Int) + 1

/-- What is selected, in characters counted from one. -/
def selection (editor : Editor) : Selection :=
  if editor.buffer.hasSelection then
    .ofBounds (editor.characterAt editor.buffer.selectionStart)
      (editor.characterAt editor.buffer.selectionStop)
  else ⟨editor.characterAt editor.buffer.selectionStart, none⟩

/-- What the editor says about itself when a query is asked. -/
def target (editor : Editor) : EditorTarget where
  path := editor.path
  modified := editor.buffer.modified
  text := some editor.sourceText
  selection := .ok editor.selection

/-- The position in a buffer of a line counted from one and of a column that
    counts bytes from one. A line past the last one is the last one, and a
    column past the end of its line is the end. -/
def positionOf (buffer : Buffer) (line column : Int) : Nat :=
  let blocks := buffer.blocks
  let block := min (line - 1).toNat (blocks.length - 1)
  let t := (blocks[block]?).getD []
  Buffer.blockStart blocks block
    + Text.unitLength (t.take (Position.ofOffset t (max 0 (column - 1)) - 1))

/-- The cursor put to a line and a column of bytes. -/
def goTo (editor : Editor) (line column : Int) : Editor :=
  { editor with buffer := editor.buffer.place (positionOf editor.buffer line column) }

/-- The cursor put to a line and a column given by values of any kind. Nothing
    moves when one of them is no integer, and the line is looked at first. -/
def goToValues (editor : Editor) (line column : Json) : Editor × Except Failure Unit :=
  match line.asInt, column.asInt with
  | .ok line, .ok column => (editor.goTo line column, .ok ())
  | .error failure, _ | .ok _, .error failure => (editor, .error failure)

/-- Text put in the place of what is selected. -/
def insert (editor : Editor) (t : Text) : Editor :=
  { editor with buffer := editor.buffer.insert t }

/-- The cursor moved. -/
def select (editor : Editor) (start : Int) (stop : Option Int) : Editor :=
  { editor with buffer := editor.buffer.select start stop }

end Editor

end QueryDesk
