import QueryDesk.Text.Basic

/-!
# Query modes

The questions the tool can answer about a position, with the name each has on
the tool's command line and the label it has in the menu.

## Main definitions

* `Mode`: The questions.
* `Mode.ofName?`: The question with a name.
* `Mode.labelOf`: The label for a name, or the name itself when it is not known.
-/

namespace QueryDesk

/-- A question about a position. -/
inductive Mode
  | callees
  | callers
  | callgraph
  | callstack
  | describe
  | implements
  | freevars
  | peers
  deriving DecidableEq, Repr

namespace Mode

/-- All questions in the order of the menu. -/
def all : List Mode :=
  [.callees, .callers, .callgraph, .callstack, .describe, .implements, .freevars, .peers]

/-- The name on the tool's command line. -/
def name : Mode → Text
  | .callees => "callees"
  | .callers => "callers"
  | .callgraph => "callgraph"
  | .callstack => "callstack"
  | .describe => "describe"
  | .implements => "implements"
  | .freevars => "freevars"
  | .peers => "peers"

/-- The label in the menu. -/
def label : Mode → Text
  | .callees => "Callees"
  | .callers => "Callers"
  | .callgraph => "Call Graph"
  | .callstack => "Call Stack"
  | .describe => "Describe"
  | .implements => "Implements"
  | .freevars => "Free Variables"
  | .peers => "Channel Peers"

/-- The question with a name. -/
def ofName? (name : Text) : Option Mode :=
  all.find? fun mode => mode.name == name

/-- The label for a name, or the name itself when no question has it. -/
def labelOf (name : Text) : Text :=
  match ofName? name with
  | some mode => mode.label
  | none => name

end Mode

end QueryDesk
