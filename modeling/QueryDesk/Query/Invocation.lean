import QueryDesk.Query.Position

/-!
# Invocations

One query as it is put to the tool: a question, a scope, a position, and the
variables that are set for the tool beyond the host's own.

## Main definitions

* `EditorTarget`: What an editor says about itself when a query is asked.
* `Invocation`: One query.
* `Invocation.arguments`: The arguments the tool is launched with.
* `RunResult`: What became of a launch that came to an end.
-/

namespace QueryDesk

/-- What an editor says about itself when a query is asked. -/
structure EditorTarget where
  path : Option Text
  modified : Bool
  text : Option Text
  /-- What is selected, or why that is not known. -/
  selection : Except Failure Selection
  deriving Repr

/-- One query as it is put to the tool. -/
structure Invocation where
  mode : Text
  scope : Text
  position : Descriptor
  extra : Table Text
  deriving DecidableEq, Repr

namespace Invocation

/-- The words of the scope, each an argument of its own. -/
def scopeWords (invocation : Invocation) : List Text :=
  Text.words invocation.scope

/-- The arguments the tool is launched with for a position that is written
    already, itself first. -/
def argumentsAt (invocation : Invocation) (tool position : Text) : List Text :=
  [tool, "-pos=" ++ position, "-mode=" ++ invocation.mode] ++ invocation.scopeWords

/-- The arguments the tool is launched with, itself first. -/
def arguments (invocation : Invocation) (tool : Text) : List Text :=
  invocation.argumentsAt tool invocation.position.format

/-- The directory the tool is started in: that of the queried file. -/
def directory (invocation : Invocation) : Option Text :=
  let directory := Path.dirName invocation.position.path
  if directory.isEmpty then none else some directory

end Invocation

/-- What became of a launch that came to an end. -/
structure RunResult where
  invocation : Invocation
  command : List Text
  output : Text
  code : Int
  debug : List Text
  deriving DecidableEq, Repr

/-- The tool says that it answered. -/
def RunResult.succeeded (result : RunResult) : Bool :=
  result.code == 0

end QueryDesk
