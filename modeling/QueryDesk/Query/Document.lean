import QueryDesk.Failure
import QueryDesk.Query.Marker
import QueryDesk.Text.Line

/-!
# Documents

The output of the tool as lines, some of which name a place. Annotating replaces
the marker at the start of a line by a glyph one can follow. A line that is
annotated already stays as it is, also when its text begins with a marker again.

## Main definitions

* `Annotation`: A location and the columns of a line that stand for it.
* `Document`: Lines with the annotations they have.
* `Annotator`: The glyph and what stands between it and the rest of a line.
* `Annotator.annotate?`, `Annotator.annotate`: A document with its markers
  replaced.
-/

namespace QueryDesk

/-- A location and the columns of a line that stand for it. -/
structure Annotation where
  start : Int
  stop : Int
  location : Location
  deriving DecidableEq, Repr

/-- A line of output. -/
structure OutputLine where
  text : Text
  annotation : Option Annotation
  deriving DecidableEq, Repr

/-- Lines of output. -/
structure Document where
  lines : List OutputLine
  deriving DecidableEq, Repr

namespace Document

/-- The lines of a text, none of them annotated. -/
def ofText (text : Text) : Document :=
  ⟨(Text.lines text).map fun line => ⟨line, none⟩⟩

/-- The lines put together again. -/
def text (document : Document) : Text :=
  Text.join ['\n'] (document.lines.map (·.text))

/-- Numbers of the annotated ones among lines counted from a number, with their
    annotations. -/
def annotationsFrom : Nat → List OutputLine → List (Nat × Annotation)
  | _, [] => []
  | row, line :: lines =>
      match line.annotation with
      | some annotation => (row, annotation) :: annotationsFrom (row + 1) lines
      | none => annotationsFrom (row + 1) lines

/-- The annotated lines by their number from zero. -/
def annotations (document : Document) : List (Nat × Annotation) :=
  annotationsFrom 0 document.lines

end Document

/-- What stands for a marker in an annotated line. -/
structure Annotator where
  glyph : Text
  separator : Text
  deriving DecidableEq, Repr

namespace Annotator

/-- The glyph of the output panel, with a blank after it. -/
def standard : Annotator := ⟨"▶", " "⟩

/-- A line with its marker replaced, none when a number in it is too long. -/
def annotateLine? (annotator : Annotator) (line : OutputLine) : Option OutputLine :=
  if line.annotation.isSome then some line
  else
    match Marker.read line.text with
    | .plain => some line
    | .tooLong => none
    | .marked location length =>
        some {
          text := annotator.glyph ++ annotator.separator ++ line.text.drop length
          annotation := some ⟨0, annotator.glyph.length, location⟩ }

/-- A document with its markers replaced, none when a number in one of them is
    too long. -/
def annotate? (annotator : Annotator) (document : Document) : Option Document :=
  (document.lines.mapM annotator.annotateLine?).map fun lines => ⟨lines⟩

/-- A document with its markers replaced, where a number that is too long is a
    failure. -/
def annotate (annotator : Annotator) (document : Document) : Except Failure Document :=
  match annotator.annotate? document with
  | some document => .ok document
  | none => .error .longNumeral

end Annotator

end QueryDesk
