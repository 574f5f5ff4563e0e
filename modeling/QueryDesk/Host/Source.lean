import QueryDesk.Host.Basic
import QueryDesk.Text.Line

/-!
# Source files

A source file is read as text with line feeds only, together with the line
ending it had, and written back with that ending.

## Main definitions

* `Host.readSource`: The text of a file and its line ending.
* `Host.writeSource`: A text put into a file with a line ending.
-/

namespace QueryDesk

namespace Host

/-- The text of a file with each pair of carriage return and line feed made one
    line feed, and the line ending the file is kept in. -/
def readSource (host : Host) (path : Text) (encoding : Encoding) :
    Except Failure (Text × LineEnding) :=
  match host.readBytes path with
  | .error failure => .error failure
  | .ok bytes =>
      let raw := encoding.decodeLossy bytes
      .ok (Text.unpair raw, LineEnding.detect raw)

/-- The characters that are written for a text with a line ending. -/
def sourcePayload (text ending : Text) : Text :=
  Text.withEnding ending (Text.unpair text)

/-- A text put into a file, with each line break written as the given ending. -/
def writeSource (host : Host) (path text ending : Text) (encoding : Encoding) :
    Host × Except Failure Unit :=
  let content := encoding.encode? (sourcePayload text ending)
  match host.files.replaceFile host.refusals host.workDir (FilePath.parse path) content with
  | (files, .ok ()) => ({ host with files }, .ok ())
  | (files, .error fault) => ({ host with files }, .error fault.failure)

end Host

end QueryDesk
