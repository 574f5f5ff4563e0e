import QueryDesk.Desk.Buffer
import QueryDesk.Host.Basic
import QueryDesk.Query.Document

/-!
# The output panel

The panel shows the output of the newest query under a banner, and each line
that names a place begins with a glyph that leads there. The glyph can be
clicked, and the whole line can be double-clicked or chosen with the enter key.

The first block of the panel is the banner, so the lines of a document are one
block further down than in the document. The places belong to blocks; the glyph
itself is the columns of the annotation.

## Main definitions

* `Panel`: What is shown, and the places its blocks lead to.
* `Panel.present`: The panel with another document.
* `Panel.annotationAt`, `Panel.annotationOf`: The place under a column, or of a
  whole block.
* `Panel.annotationAtValues`: The place under a block and a column of any kind.
* `Gesture`: What the user can do to the panel.
* `Panel.react`: The panel after a gesture, and the place it leads to.
* `Panel.height`: How high the panel would like to be.
-/

namespace QueryDesk

/-- The shape of the mouse over the panel. -/
inductive MouseShape
  | text
  | hand
  deriving DecidableEq, Repr

/-- What is shown, and the places its blocks lead to. -/
structure Panel where
  /-- The most lines that the panel would like to show at a time. -/
  maxLines : Int
  /-- The annotated blocks from the first one down. -/
  annotations : List (Nat × Annotation)
  status : Text
  view : Buffer
  /-- The shape of the mouse since it was last moved. -/
  mouse : Option MouseShape
  deriving DecidableEq, Repr

namespace Panel

/-- The first line of the panel. -/
def banner : Text := "Go Oracle"

/-- A number of lines that leaves room for the banner and a place. -/
def atLeastThree (lines : Int) : Int :=
  max 3 lines

/-- A panel that has shown nothing. -/
def fresh (maxLines : Int) : Panel :=
  ⟨atLeastThree maxLines, [], "No oracle query yet.", .empty, none⟩

/-- The most lines a panel shows when nothing is configured. -/
def defaultLines : Int := 20

/-- The panel with another number of lines to show at most. -/
def setMaxLines (panel : Panel) (lines : Int) : Panel :=
  { panel with maxLines := atLeastThree lines }

/-- The text of a panel that shows a document. -/
def textOf (document : Document) : Text :=
  Text.join ['\n'] (banner :: document.lines.map (·.text)) ++ ['\n']

/-- How many places were found. -/
def countText (count : Nat) : Text :=
  Text.ofNat count ++ " location(s)."

/-- The panel with another document, of which nothing earlier is left. Without
    a summary the number of places is shown. -/
def present (panel : Panel) (document : Document) (summary : Text) : Panel :=
  { panel with
    annotations := document.annotations.map fun (row, annotation) => (row + 1, annotation)
    status := summary.orElse (countText document.annotations.length)
    view := .ofText (textOf document) }

/-- The text shown. -/
def text (panel : Panel) : Text :=
  panel.view.plainText

/-- The annotation of a block. -/
def annotationOf (panel : Panel) (block : Int) : Option Annotation :=
  (panel.annotations.find? fun entry => (entry.1 : Int) == block).map (·.2)

/-- The annotation of a block whose glyph reaches to a column. -/
def annotationAt (panel : Panel) (block column : Int) : Option Annotation :=
  (panel.annotationOf block).filter fun mark =>
    decide (mark.start ≤ column ∧ column ≤ mark.stop)

/-- The annotation of a block and a column that may be values of any kind. The
    column does not matter where the block has no annotation. -/
def annotationAtValues (panel : Panel) (block column : Json) :
    Except Failure (Option Annotation) :=
  match block.asInt with
  | .error failure => .error failure
  | .ok block =>
      match panel.annotationOf block with
      | none => .ok none
      | some _ => column.asInt.map (panel.annotationAt block)

/-- The annotation at the point nearest to a block and a column. -/
def annotationNear (panel : Panel) (block column : Int) : Option Annotation :=
  let (block, column) := panel.view.clamp block column
  panel.annotationAt block column

/-- The positions of each glyph, and how the place it leads to is written. -/
def glyphs (panel : Panel) : List (Int × Int × Text) :=
  panel.annotations.map fun (block, annotation) =>
    let start : Int := Buffer.blockStart panel.view.blocks block
    (start + annotation.start, start + annotation.stop, annotation.location.label)

/-- How high the panel would like to be on a screen. -/
def height (panel : Panel) (metrics : Metrics) : Int :=
  min (panel.view.blocks.length : Int) panel.maxLines * metrics.line + metrics.frame
    + metrics.status

end Panel

/-- A button of the mouse. -/
inductive MouseButton
  | left
  | other
  deriving DecidableEq, Repr

/-- What the user can do to the panel. Points are a block and a column, and may
    be outside the text. -/
inductive Gesture
  /-- The cursor is moved, perhaps with its other end. -/
  | select (start : Int) (stop : Option Int)
  /-- A button of the mouse is released. -/
  | release (button : MouseButton) (block column : Int)
  /-- The left button is pressed twice. -/
  | doubleClick (block column : Int)
  /-- The mouse is moved. -/
  | move (block column : Int)
  /-- A key is pressed that is an enter key or is not. -/
  | key (isEnter : Bool)
  deriving DecidableEq, Repr

namespace Panel

/-- The place that the block of a point leads to. -/
def lineLocation (panel : Panel) (block column : Int) : Option Location :=
  (panel.annotationOf (panel.view.clamp block column).1).map (·.location)

/-- The place that a gesture leads to. A glyph is clicked with the left button
    when nothing is selected. -/
def followed (panel : Panel) : Gesture → Option Location
  | .release .left block column =>
      if panel.view.hasSelection then none
      else (panel.annotationNear block column).map (·.location)
  | .doubleClick block column => panel.lineLocation block column
  | .key true => (panel.annotationOf (panel.view.locate panel.view.position).1).map (·.location)
  | _ => none

/-- The panel after a gesture. -/
def after (panel : Panel) : Gesture → Panel
  | .select start stop => { panel with view := panel.view.select start stop }
  | .move block column =>
      { panel with
        mouse := some (if (panel.annotationNear block column).isSome then .hand else .text) }
  | _ => panel

/-- The panel after a gesture, and the place it leads to. -/
def react (panel : Panel) (gesture : Gesture) : Panel × Option Location :=
  (panel.after gesture, panel.followed gesture)

/-- The text of the tooltip at a point, none where there is no glyph. -/
def tip (panel : Panel) (block column : Int) : Option Text :=
  (panel.annotationNear block column).map (·.location.label)

end Panel

end QueryDesk
