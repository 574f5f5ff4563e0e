import QueryDesk.Table
import QueryDesk.Text.Quoted
import QueryDesk.Text.Utf8

/-!
# Launches

A launch starts a program with arguments, perhaps in a directory and with an
environment of its own, and waits for it. Either it fails before there is an
exit status, or it gives a status and what the program wrote.

## Main definitions

* `Launch`: What is started.
* `LaunchFault`: Why there is no exit status.
* `LaunchOutcome`: How a launch ended.
* `LaunchFault.message`: The text shown for a fault.
-/

namespace QueryDesk

/-- A program to start: its arguments, the directory it starts in, and its
    environment, where `none` leaves the desk's own. -/
structure Launch where
  command : List Text
  directory : Option Text
  environment : Option (Table Text)
  deriving DecidableEq, Repr

/-- Why a launch gave no exit status. -/
inductive LaunchFault
  /-- There is no such program. -/
  | notFound (detail : Text)
  /-- The program may not be executed. -/
  | denied (detail : Text)
  /-- The system refused for another reason. -/
  | refused (detail : Text)
  /-- The program was started and its exit could not be collected. -/
  | notCollected (detail : Text)
  /-- The program did not end in time. -/
  | timedOut
  /-- Something else went wrong in the desk. -/
  | broken (detail : Text)
  deriving DecidableEq, Repr

/-- How a launch ended. -/
inductive LaunchOutcome
  | failed (fault : LaunchFault)
  | exited (code : Int) (output errors : Bytes)
  deriving DecidableEq, Repr

namespace LaunchFault

/-- The seconds after which a program counts as not ending. -/
def timeLimit : Nat := 15

/-- The text shown for a fault of a launch. -/
def message (command : List Text) : LaunchFault → Text
  | .notFound detail => "[Errno 2] " ++ detail
  | .denied detail => "[Errno 13] " ++ detail
  | .refused detail => detail
  | .notCollected detail => detail
  | .timedOut =>
      "Command '" ++ Text.quotedList command ++ "' timed out after " ++ Text.ofNat timeLimit
        ++ " seconds"
  | .broken detail => detail

/-- The fault as the debug log shows it: its kind, and its details between
    quotes. -/
def shown (command : List Text) : LaunchFault → Text
  | .notFound detail => "FileNotFoundError(2, " ++ detail.quoted ++ ")"
  | .denied detail => "PermissionError(13, " ++ detail.quoted ++ ")"
  | .refused detail => "OSError(" ++ detail.quoted ++ ")"
  | .notCollected detail => "SubprocessError(" ++ detail.quoted ++ ")"
  | .timedOut =>
      "TimeoutExpired(" ++ Text.quotedList command ++ ", " ++ Text.ofNat timeLimit ++ ")"
  | .broken detail => "RuntimeError(" ++ detail.quoted ++ ")"

end LaunchFault

end QueryDesk
