import QueryDesk.Host.Executable
import QueryDesk.Json.Display
import QueryDesk.Text.Line

/-!
# Toolchains

Where the compiler and the sources are, which the tool is told through its
environment. What is configured counts first, then what the compiler's own
command reports, then the host's environment; the root and the search path are
decided one without the other. The command is launched only when something is
left to ask it.

## Main definitions

* `Toolchain`: A root, a search path, and lines for the debug log.
* `Toolchain.environment`: The variables a toolchain sets.
* `Gopath.split`: The entries of a search path given in any form.
* `ToolchainRequest`: What is configured.
* `Host.resolveToolchain`: The toolchain for what is configured.
-/

namespace QueryDesk

/-- A root and a search path for sources, and how they were found. -/
structure Toolchain where
  root : Text
  searchPath : List Text
  debug : List Text
  deriving DecidableEq, Repr

/-- The variables a toolchain sets. Code of other languages is left out of the
    analysis. -/
def Toolchain.environment (toolchain : Toolchain) : Table Text := [
  ("GOROOT", toolchain.root),
  ("GOPATH", Text.join [':'] toolchain.searchPath),
  ("CGO_ENABLED", "0")]

namespace Gopath

/-- The entries without the blanks around them and without those that are left
    empty. -/
def clean (entries : List Text) : List Text :=
  (entries.map Text.trim).filter (!·.isEmpty)

/-- The entries of a search path written with colons between them. -/
def splitText (path : Text) : List Text :=
  clean (Text.splitOn ':' path)

/-- The entries of a search path: the items of a list, or the parts between the
    colons of the word that any other value makes. -/
def split : Json → List Text
  | .arr items => clean (items.map Json.word)
  | other => splitText other.word

end Gopath

/-- What is configured about the toolchain: the compiler's command, and a root
    and a search path that count before all others. -/
structure ToolchainRequest where
  command : Text
  root : Text
  searchPath : List Text
  deriving DecidableEq, Repr

/-- What the compiler's command reports, empty where it reports nothing. -/
structure ToolchainReport where
  root : Text
  searchPath : Text
  debug : List Text
  deriving DecidableEq, Repr

namespace ToolchainReport

/-- A report of nothing but what the debug log is told. -/
def silent (debug : List Text) : ToolchainReport :=
  ⟨[], [], debug⟩

/-- The report in an answer: the root on its first line and the search path on
    its second. -/
def ofAnswer (answer : Text) (debug : List Text) : ToolchainReport :=
  match Text.lines answer with
  | [] => silent debug
  | [root] => ⟨Text.trim root, [], debug⟩
  | root :: searchPath :: _ => ⟨Text.trim root, Text.trim searchPath, debug⟩

/-- What a program wrote as a text with line feeds only. -/
def decoded (bytes : Bytes) : Except Failure Text :=
  match Utf8.fault? bytes with
  | some fault => .error (.notDecodable bytes fault)
  | none => .ok (Text.normalizeBreaks (Utf8.decodeLossy bytes))

/-- The report in how a launch of the compiler's command ended. What it wrote
    has to be text, also when it is not used. -/
def ofOutcome (command : List Text) (program : Text) (debug : List Text) :
    LaunchOutcome → Except Failure ToolchainReport
  | .failed (.broken detail) => .error (.launch command (.broken detail))
  | .failed (.notFound _) =>
      .ok (silent (debug ++ ["[Toolchain] Command not found: " ++ program]))
  | .failed fault => .ok (silent (debug ++ ["[Toolchain] " ++ fault.message command]))
  | .exited code output errors =>
      -- Both streams are decoded before the exit status is looked at.
      match decoded output, decoded errors with
      | .error failure, _ => .error failure
      | _, .error failure => .error failure
      | .ok output, .ok errors =>
          if code = 0 then .ok (ofAnswer output debug)
          else
            .ok (silent (debug ++
              ["[Toolchain][stderr] " ++ (Text.trim errors).orElse ("exit " ++ Text.ofInt code)]))

end ToolchainReport

namespace Host

/-- What the compiler's command reports. A blank command is not launched. -/
def askCompiler (host : Host) (command : Text) : Host × Except Failure ToolchainReport :=
  let program := host.findExecutable (command.orElse "go")
  if program.isEmpty then (host, .ok (.silent []))
  else
    let command := [program, "env", "GOROOT", "GOPATH"]
    let debug := ["[Toolchain] cmd: " ++ Text.join [' '] command]
    let (host, outcome) := host.launch ⟨command, none, none⟩
    (host, ToolchainReport.ofOutcome command program debug outcome)

/-- The toolchain that a report and the host's environment make of what is
    configured. -/
def toolchainOf (host : Host) (root : Text) (searchPath : List Text) (report : ToolchainReport) :
    Toolchain :=
  let root :=
    root.orElse (report.root.orElse (Text.trim (host.variableText "GOROOT")))
  let searchPath :=
    if searchPath.isEmpty then
      Gopath.splitText (report.searchPath.orElse (host.variableText "GOPATH"))
    else searchPath
  { root, searchPath
    debug := report.debug ++ [
      "[Toolchain] GOROOT=" ++ root.orElse "<unset>",
      "[Toolchain] GOPATH=" ++ (Text.join [':'] searchPath).orElse "<unset>"] }

/-- The toolchain for what is configured. -/
def resolveToolchain (host : Host) (request : ToolchainRequest) :
    Host × Except Failure Toolchain :=
  let root := Text.trim request.root
  if !root.isEmpty && !request.searchPath.isEmpty then
    (host, .ok ⟨root, request.searchPath, ["[Toolchain] using configured GOROOT and GOPATH"]⟩)
  else
    match host.askCompiler request.command with
    | (host, .error failure) => (host, .error failure)
    | (host, .ok report) => (host, .ok (host.toolchainOf root request.searchPath report))

end Host

end QueryDesk
