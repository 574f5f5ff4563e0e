import QueryDesk.Desk.Panel
import QueryDesk.Desk.User
import QueryDesk.Query.Invoker
import QueryDesk.Settings.Desk

/-!
# The workbench

The workbench takes queries about the text of an editor, runs them in the order
in which they were taken, and shows what comes of the newest one in the output
panel. Queries are numbered. A query that was put together waits until there is
time to run it; its result waits until results are collected; and of the results
only that of the query with the highest number so far is shown, so that an older
result never takes the place of a newer one.

A place in the output that is given by a relative path is looked for from the
directory of the file that the newest query is about.

## Main definitions

* `Workbench`: The queries that wait, their results, and the panel.
* `Workbench.run`: A query checked and taken.
* `Workbench.work`: Queries run that wait.
* `Workbench.drain`: Results collected, and the newest one shown.
* `Workbench.setScope`: The scope asked for until there is one.
* `Workbench.activate`: The way to a place in the output.
* `Workbench.activateValues`: The same for a place given by values of any kind.
* `Workbench.react`: A gesture on the panel.
* `Workbench.configure`: What the settings say taken over.
* `Workbench.shutdown`: No more queries taken.
-/

namespace QueryDesk

/-- The queries that wait, their results, and the panel. -/
structure Workbench where
  host : Host
  user : User
  invoker : Invoker
  panel : Panel
  asker : ScopeAsker
  /-- The panel takes the keyboard when it has something to show. -/
  focusPanel : Bool
  /-- The directory from which relative paths in the output are looked for. -/
  baseDir : Text
  /-- The number of the newest query. -/
  latest : Nat
  /-- The queries that wait to be run by their numbers, the oldest first. -/
  waiting : List (Nat × Invocation)
  /-- The results that wait to be collected by the numbers of their queries, in
      the order in which they came. -/
  results : List (Nat × Except Failure RunResult)
  /-- No more queries are taken. -/
  closed : Bool

namespace Workbench

/-- A workbench that has taken no query. -/
def fresh (host : Host) (user : User) (session : Session) : Workbench where
  host := host
  user := user
  invoker := .fresh session [] Invoker.defaultSource
  panel := .fresh Panel.defaultLines
  asker := .dialog
  focusPanel := true
  baseDir := []
  latest := 0
  waiting := []
  results := []
  closed := false

/-- The scope and its history. -/
def session (bench : Workbench) : Session :=
  bench.invoker.session

/-- How long the status bar shows that something went as it should. -/
def shortWhile : Int := 2200

/-- How long the status bar shows that something went wrong. -/
def longWhile : Int := 3500

/-- The status of a query that was not taken. -/
def refused (bench : Workbench) (refusal : Refusal) : Outcome Workbench Bool :=
  let duration :=
    match refusal with
    | .noScope => shortWhile
    | _ => longWhile
  .tell bench [.status refusal.message duration] false

/-- A query that was put together gets the next number and waits. -/
def start (bench : Workbench) (invocation : Invocation) : Outcome Workbench Bool :=
  -- The number is taken even when the workbench is closed.
  let bench := { bench with
    latest := bench.latest + 1
    baseDir := Path.dirName invocation.position.path }
  if bench.closed then .fail bench .closed
  else
    .tell { bench with waiting := bench.waiting ++ [(bench.latest, invocation)] }
      [.status ("Running oracle: " ++ Mode.labelOf invocation.mode ++ "...") 0] true

/-- A query about what an editor shows checked, put together and taken, and
    whether it was. -/
def run (bench : Workbench) (mode : Text) (target : Option EditorTarget) :
    Outcome Workbench Bool :=
  match target with
  | none => .tell bench [.status "No active editor for the oracle." shortWhile] false
  | some target =>
      match bench.invoker.prepare bench.host mode target (some bench.asker.prompt) bench.user with
      | (.error (.query refusal), invoker, user) => refused { bench with invoker, user } refusal
      | (.error failure, invoker, user) => .fail { bench with invoker, user } failure
      | (.ok invocation, invoker, user) => start { bench with invoker, user } invocation

/-- At most so many of the queries that wait run, the oldest first. -/
def work (bench : Workbench) : Nat → Workbench
  | 0 => bench
  | count + 1 =>
      match bench.waiting with
      | [] => bench
      | (number, invocation) :: waiting =>
          match bench.invoker.execute bench.host invocation with
          | (result, invoker, host) =>
              work { bench with
                invoker, host, waiting
                results := bench.results ++ [(number, result)] } count

/-- All queries that wait run. -/
def workAll (bench : Workbench) : Workbench :=
  bench.work bench.waiting.length

/-- One line for what a query gave. -/
def summary (result : RunResult) (document : Document) : Text :=
  let label := Mode.labelOf result.invocation.mode
  if result.succeeded then label ++ ": " ++ Panel.countText document.annotations.length
  else label ++ ": oracle exited with status " ++ Text.ofInt result.code ++ "."

/-- The output of a query shown in the panel. -/
def present (bench : Workbench) (result : RunResult) (document : Document) :
    Outcome Workbench Unit :=
  let summary := summary result document
  let panel := bench.panel.present document summary
  .tell { bench with panel }
    ([.reveal (panel.height bench.host.metrics)]
      ++ (if bench.focusPanel then [.focused .output] else [])
      ++ (if result.debug.isEmpty then [] else [.debug result.debug])
      ++ [.status summary shortWhile, .finished result]) ()

/-- What is told about a query that gave no result. Only a tool that could not
    be started is worth a warning. -/
def report (bench : Workbench) (failure : Failure) : Outcome Workbench Unit :=
  match failure with
  | .query (.notStarted program reason) =>
      let text := (Refusal.notStarted program reason).message
      .tell { bench with user := bench.user.see (.warning "Go Oracle" text) }
        [.status text longWhile, .debug ["[Oracle] " ++ text]] ()
  | failure =>
      .tell bench [
        .status ("Oracle query failed: " ++ failure.message) longWhile,
        .debug ["[Oracle] unexpected error: " ++ failure.shown]] ()

/-- The end of the newest query. -/
def conclude (bench : Workbench) (result : Except Failure RunResult) : Outcome Workbench Unit :=
  match result with
  | .error failure => bench.report failure
  | .ok result =>
      match Annotator.standard.annotate (.ofText result.output) with
      | .error failure => .fail bench failure
      | .ok document => bench.present result document

/-- Results collected one by one, of which only that of the newest query counts.
    What is left when one of them fails waits on. -/
def collect (bench : Workbench) :
    List (Nat × Except Failure RunResult) → Outcome Workbench Unit
  | [] => .pure { bench with results := [] } ()
  | (number, result) :: results =>
      -- A newer query was taken since, so this result is out of date.
      if number ≠ bench.latest then collect bench results
      else
        (conclude { bench with results } result).andThen fun bench _ => collect bench results

/-- The results that wait collected, also when no more queries are taken. -/
def drain (bench : Workbench) : Outcome Workbench Unit :=
  bench.collect bench.results

/-- The scope asked for until an answer has words or the user cancels, and the
    scope that was set. The first argument is how often it may be asked for. -/
def askScope (current : Text) : Nat → Workbench → Outcome Workbench (Option Text)
  | 0, bench => .pure bench none
  | asks + 1, bench =>
      match bench.asker.prompt current bench.session.recalled bench.user with
      | (none, user) => .pure { bench with user } none
      | (some candidate, user) =>
          match bench.session.setScope candidate with
          | .ok (scope, session) =>
              .tell { bench with user, invoker := { bench.invoker with session } }
                [.status ("Oracle scope: " ++ scope) shortWhile] (some scope)
          | .error refusal =>
              askScope current asks
                { bench with user := user.see (.warning User.scopeTitle refusal.message) }

/-- The scope asked for until an answer has words or the user cancels. Each time
    takes an answer, and without answers the user cancels. -/
def setScope (bench : Workbench) : Outcome Workbench (Option Text) :=
  askScope bench.session.scope (bench.user.answers.length + 1) bench

/-- The way to a place in the output. A relative path is looked for from the
    directory of the newest query's file. -/
def activate (bench : Workbench) (path : Text) (line column : Int) : List Notice :=
  let path := Text.trim path
  if path.isEmpty then []
  else
    let path :=
      if !Path.isAbsolute path && !bench.baseDir.isEmpty then Path.join bench.baseDir path else path
    [.navigate (Path.normalize path) line column]

/-- The way to a place given by values of any kind. Without a path nothing else
    matters. -/
def activateValues (bench : Workbench) (path line column : Json) : Outcome Workbench Unit :=
  if (Text.trim path.word).isEmpty then .pure bench ()
  else
    match line.asInt, column.asInt with
    | .ok line, .ok column => .tell bench (bench.activate path.word line column) ()
    | .error failure, _ => .fail bench failure
    | _, .error failure => .fail bench failure

/-- A gesture on the panel. -/
def react (bench : Workbench) (gesture : Gesture) : Outcome Workbench Unit :=
  let (panel, followed) := bench.panel.react gesture
  let notices :=
    match followed with
    | some location => bench.activate location.path location.line location.column
    | none => []
  .tell { bench with panel } notices ()

/-- A setting as an integer, where one that does not count as set stands for a
    default. -/
def intSetting (values : Section) (name : Text) (default : Int) : Except Failure Int :=
  let value := Settings.valueOf values name
  if value.truthy then value.asInt else .ok default

/-- The toolchain that the settings ask for. -/
def requestOf (values : Section) : ToolchainRequest where
  command := (Settings.valueOf values "go_command").word.orElse "go"
  root := (Settings.valueOf values "goroot").word
  searchPath := Gopath.split (Settings.valueOf values "gopath")

/-- What the settings say taken over, one after the other until one of them
    makes no sense. -/
def configure (bench : Workbench) (values : Section) : Outcome Workbench Unit :=
  let command := (Settings.valueOf values "command").word
  let bench := { bench with
    invoker := bench.invoker.configure (some command) (some (.resolved (requestOf values))) }
  match intSetting values "history_limit" Session.defaultLimit with
  | .error failure => .fail bench failure
  | .ok limit =>
      let bench := { bench with
        invoker := { bench.invoker with session := bench.session.setLimit limit } }
      match intSetting values "panel_max_lines" Panel.defaultLines with
      | .error failure => .fail bench failure
      | .ok lines =>
          .pure { bench with
            panel := bench.panel.setMaxLines lines
            focusPanel := ((Section.get? "focus_panel" values).getD (.bool true)).truthy } ()

/-- No more queries taken, and those that wait dropped. -/
def shutdown (bench : Workbench) : Workbench :=
  { bench with closed := true, waiting := [] }

end Workbench

end QueryDesk
