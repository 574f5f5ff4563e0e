import QueryDesk.Query.Invocation
import QueryDesk.Query.Mode
import QueryDesk.Query.Session
import QueryDesk.Query.Toolchain

/-!
# Running queries

A query is first checked and put together, then launched. The first part needs
the editor and the user and launches nothing; the second needs neither. The
toolchain is resolved at the first launch that needs it and kept until the next
configuration. The lines it has for the debug log are taken by the first launch
after it was resolved, and go out with its result.

What sources answer can be given to everything that asks one, so that more can be
said than of the two sources of the desk. These answer where nothing else is given.

## Main definitions

* `ToolchainSource`: Where the toolchain comes from.
* `Answers`: What sources answer.
* `Invoker`: The session, the tool's command, and the toolchain kept.
* `Invoker.configure`: Another command or toolchain source.
* `Invoker.prepare`: A query checked and put together.
* `Invoker.execute`: A query launched.
* `Invoker.run`: Both.
-/

namespace QueryDesk

/-- Where the toolchain comes from. -/
inductive ToolchainSource
  /-- It is known beforehand. -/
  | fixed (toolchain : Toolchain)
  /-- It is resolved on the host. -/
  | resolved (request : ToolchainRequest)
  deriving DecidableEq, Repr

/-- The toolchain from a source. -/
def ToolchainSource.get (source : ToolchainSource) (host : Host) :
    Host × Except Failure Toolchain :=
  match source with
  | .fixed toolchain => (host, .ok toolchain)
  | .resolved request => host.resolveToolchain request

/-- What sources answer, and what they do to the host. -/
abbrev Answers := ToolchainSource → Host → Host × Except Failure Toolchain

/-- What queries are run with. -/
structure Invoker where
  session : Session
  command : Text
  source : ToolchainSource
  /-- The toolchain resolved since the last configuration. -/
  kept : Option Toolchain
  /-- Its lines for the debug log that no result has taken yet. -/
  pending : List Text
  /-- How often the source was asked. -/
  asked : Nat
  deriving Repr

namespace Invoker

/-- The tool's command when none is configured. -/
def defaultCommand : Text := "oracle"

/-- The toolchain source when none is configured. -/
def defaultSource : ToolchainSource := .resolved ⟨"go", [], []⟩

/-- An invoker that has run nothing. -/
def fresh (session : Session) (command : Text) (source : ToolchainSource) : Invoker :=
  ⟨session, command.orElse defaultCommand, source, none, [], 0⟩

/-- Another command or toolchain source, where `none` leaves the old one. The
    toolchain kept is forgotten in any case. -/
def configure (invoker : Invoker) (command : Option Text) (source : Option ToolchainSource) :
    Invoker :=
  { invoker with
    command := (command.map (·.orElse defaultCommand)).getD invoker.command
    source := source.getD invoker.source
    kept := none
    pending := [] }

/-- The toolchain kept, or the one the source gives, which is then kept. -/
def toolchain (invoker : Invoker) (host : Host) (answers : Answers := ToolchainSource.get) :
    Invoker × Host × Except Failure Toolchain :=
  match invoker.kept with
  | some toolchain => (invoker, host, .ok toolchain)
  | none =>
      let invoker := { invoker with asked := invoker.asked + 1 }
      match answers invoker.source host with
      | (host, .error failure) => (invoker, host, .error failure)
      | (host, .ok toolchain) =>
          ({ invoker with kept := some toolchain, pending := toolchain.debug }, host, .ok toolchain)

/-- The question and the file of a query, or the first reason against it: an
    unknown question, no file, a file with unsaved changes. -/
def vet (mode : Text) (target : EditorTarget) : Except Refusal (Text × Text) :=
  let mode := Text.trim mode
  let path := Text.trim (target.path.getD [])
  if (Mode.ofName? mode).isNone then .error (.unknownMode mode)
  else if path.isEmpty then .error (.noFile Refusal.noFileWords)
  else if target.modified then .error (.unsavedChanges path)
  else .ok (mode, path)

/-- A query checked and put together. The prompt is asked only when all is well
    but the scope. -/
def prepare {σ : Type} (invoker : Invoker) (host : Host) (mode : Text) (target : EditorTarget)
    (prompt : Option (Prompt σ)) (state : σ) : Except Failure Invocation × Invoker × σ :=
  match vet mode target with
  | .error refusal => (.error (.query refusal), invoker, state)
  | .ok (mode, path) =>
      match invoker.session.ensureScope prompt state with
      | (.error refusal, session, state) =>
          (.error (.query refusal), { invoker with session }, state)
      | (.ok scope, session, state) =>
          let invoker := { invoker with session }
          match host.describe path target.selection target.text with
          | .error failure => (.error failure, invoker, state)
          | .ok position => (.ok ⟨mode, scope, position, []⟩, invoker, state)

/-- The arguments the tool is launched with for a query. -/
def commandFor (invoker : Invoker) (host : Host) (invocation : Invocation) : List Text :=
  invocation.arguments ((host.findExecutable invoker.command).orElse invoker.command)

/-- The environment the tool is launched with: the host's, with the variables of
    the query put into it. -/
def environmentFor (host : Host) (invocation : Invocation) : Table Text :=
  Table.update host.environment invocation.extra

/-- The result in how a launch of the tool ended. -/
def resultOf (invocation : Invocation) (command debug : List Text) :
    LaunchOutcome → Except Failure RunResult
  | .failed fault =>
      let program := command.headD []
      match fault with
      | .notFound _ => .error (.query (.notStarted program "command not found"))
      | .denied _ => .error (.query (.notStarted program "permission denied"))
      | .refused detail => .error (.query (.notStarted program detail))
      | other => .error (.launch command other)
  | .exited code output _ =>
      .ok {
        invocation, command, code
        output := Text.normalizeBreaks (Utf8.decodeLossy output)
        debug := if code = 0 then debug else debug ++ ["[Oracle] exit " ++ Text.ofInt code] }

/-- A query launched, when the variables for the tool are known. -/
def launch (invoker : Invoker) (host : Host) (invocation : Invocation) :
    Except Failure RunResult × Invoker × Host :=
  let command := invoker.commandFor host invocation
  -- The lines that wait are taken here, so a launch that fails loses them.
  let debug := invoker.pending ++ ["[Oracle] cmd: " ++ Text.join [' '] command]
  let (host, outcome) :=
    host.launch ⟨command, invocation.directory, some (environmentFor host invocation)⟩
  (resultOf invocation command debug outcome, { invoker with pending := [] }, host)

/-- A query launched. Without variables of its own it takes the toolchain's. -/
def execute (invoker : Invoker) (host : Host) (invocation : Invocation)
    (answers : Answers := ToolchainSource.get) : Except Failure RunResult × Invoker × Host :=
  if invocation.extra.isEmpty then
    match invoker.toolchain host answers with
    | (invoker, host, .error failure) => (.error failure, invoker, host)
    | (invoker, host, .ok toolchain) =>
        invoker.launch host { invocation with extra := toolchain.environment }
  else invoker.launch host invocation

/-- A query checked, put together and launched. -/
def run {σ : Type} (invoker : Invoker) (host : Host) (mode : Text) (target : EditorTarget)
    (prompt : Option (Prompt σ)) (state : σ) (answers : Answers := ToolchainSource.get) :
    Except Failure RunResult × Invoker × Host × σ :=
  match invoker.prepare host mode target prompt state with
  | (.error failure, invoker, state) => (.error failure, invoker, host, state)
  | (.ok invocation, invoker, state) =>
      match invoker.execute host invocation answers with
      | (result, invoker, host) => (result, invoker, host, state)

end Invoker

end QueryDesk
