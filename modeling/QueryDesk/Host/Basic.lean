import QueryDesk.Failure
import QueryDesk.Files.Change

/-!
# The host

The machine the desk runs on, as far as the desk can tell: a file tree with a
working directory, what the system refuses to do to the tree, an environment, the
home directories of accounts, what a line of text measures on the screen, and what
becomes of the programs that are launched. The outcomes of launches to come are
part of the host, and the launches made so far are kept on it.

## Main definitions

* `Host`: The machine.
* `Metrics`: What the parts of the panel measure on its screen.
* `Host.ofFiles`: A machine with files and nothing else.
* `Host.commonAccounts`: The accounts of a host on which nobody was added.
* `Host.setting?`: A variable of the environment.
* `Host.launch`: One launch, which takes the next outcome.
-/

namespace QueryDesk

/-- What the parts of the output panel measure on a screen. The font and the style of
    the desk's widgets decide, and nothing is said of them here. -/
structure Metrics where
  /-- The height of a line of text. -/
  line : Int
  /-- The height of the frame and the margin, above and below. -/
  frame : Int
  /-- The height of the status line. -/
  status : Int
  deriving DecidableEq, Repr

/-- The machine the desk runs on. -/
structure Host where
  files : FileTree
  workDir : Place
  environment : Table Text
  /-- The home directory of each account, the desk's own first. -/
  accounts : Table Text
  /-- How the launches to come will end. When none is left, no program is
      found. -/
  outcomes : List LaunchOutcome
  /-- The launches made, the first one first. -/
  launches : List Launch
  /-- What the system refuses to do to the file tree. -/
  refusals : Refusals
  metrics : Metrics
  deriving Repr

namespace Host

/-- A machine with some files and nothing else, which refuses nothing. -/
def ofFiles (files : FileTree) : Host :=
  ⟨files, [], [], [], [], [], .none, ⟨0, 0, 0⟩⟩

/-- The accounts that a host has from the start, with their home directories. -/
def commonAccounts : Table Text := [
  ("root", "/root"), ("daemon", "/usr/sbin"), ("bin", "/bin"), ("sys", "/dev"), ("sync", "/bin"),
  ("games", "/usr/games"), ("man", "/var/cache/man"), ("lp", "/var/spool/lpd"),
  ("mail", "/var/mail"), ("news", "/var/spool/news"), ("uucp", "/var/spool/uucp"),
  ("proxy", "/bin"), ("www-data", "/var/www"), ("backup", "/var/backups"), ("list", "/var/list"),
  ("irc", "/run/ircd"), ("_apt", "/nonexistent"), ("nobody", "/nonexistent")]

/-- The value of an environment variable. -/
def setting? (host : Host) (name : Text) : Option Text :=
  Table.get? name host.environment

/-- The value of an environment variable, empty when it is not set. -/
def variableText (host : Host) (name : Text) : Text :=
  (host.setting? name).getD []

/-- One launch: the host with it recorded, and how it ended. -/
def launch (host : Host) (launch : Launch) : Host × LaunchOutcome :=
  let host := { host with launches := host.launches ++ [launch] }
  match host.outcomes with
  | [] => (host, .failed (.notFound []))
  | outcome :: outcomes => ({ host with outcomes }, outcome)

/-- The bytes of the file at a path. -/
def readBytes (host : Host) (path : Text) : Except Failure Bytes :=
  match host.files.readBytes host.workDir path with
  | .ok bytes => .ok bytes
  | .error fault => .error (.file fault)

/-- Whether the entry at a path has a property. -/
def test (host : Host) (property : Entry → Bool) (path : Text) : Except Failure Bool :=
  match host.files.test host.workDir property path with
  | .ok answer => .ok answer
  | .error fault => .error (.file fault)

end Host

end QueryDesk
