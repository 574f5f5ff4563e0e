import QueryDesk.Desk.Window

/-!
# Start-up

The desk is started with a list of arguments. Those that begin with a hyphen are
for the window system; the others are the names of files to open. Names of
nothing that is a file are passed over.

## Main definitions

* `Arguments`: The arguments, sorted.
* `Arguments.split`: Arguments sorted.
* `Host.existingFiles`: The files among some names.
* `Window.start`: The desk with the files of its arguments open.
-/

namespace QueryDesk

/-- The arguments of a start: names of files, and options for the window
    system. -/
structure Arguments where
  files : List Text
  options : List Text
  deriving DecidableEq, Repr

namespace Arguments

/-- The argument is an option for the window system. -/
def isOption (argument : Text) : Bool :=
  argument.head? == some '-'

/-- The arguments sorted, each kind in its order. -/
def split (arguments : List Text) : Arguments :=
  ⟨arguments.filter (!isOption ·), arguments.filter isOption⟩

end Arguments

/-- The command that the window system is told the desk was started with. -/
def programName : Text := "pyoracle"

/-- The command line that is left for the window system. -/
def Arguments.forWindowSystem (arguments : Arguments) : List Text :=
  programName :: arguments.options

namespace Host

/-- The real path of a file by a name a user may give, none when it is the name
    of nothing that is a file. -/
def existingFile (host : Host) (name : Text) : Except Failure (Option Text) :=
  match host.expandHome (FilePath.parse (Text.trim name)) with
  | .error failure => .error failure
  | .ok path =>
      match host.test Entry.isFile path.text with
      | .error failure => .error failure
      | .ok false => .ok none
      | .ok true => (host.resolve path).map some

/-- The real paths of the files among some names. -/
def existingFiles (host : Host) : List Text → Except Failure (List Text)
  | [] => .ok []
  | name :: names =>
      match host.existingFile name with
      | .error failure => .error failure
      | .ok found =>
          match existingFiles host names with
          | .error failure => .error failure
          | .ok others => .ok (found.toList ++ others)

end Host

namespace Window

/-- Files opened one after the other. -/
def openFiles (window : Window) : List Text → Outcome Window Unit
  | [] => .pure window ()
  | path :: paths => (window.openFile path).andThen fun window _ => openFiles window paths

/-- The desk with the files of its arguments open. -/
def start (host : Host) (user : User) (settings : Settings) (arguments : Arguments) :
    Outcome Window Unit :=
  (fresh host user settings).andThen fun window _ =>
    match window.host.existingFiles arguments.files with
    | .error failure => .fail window failure
    | .ok paths => window.openFiles paths

end Window

end QueryDesk
