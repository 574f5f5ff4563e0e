import QueryDesk.Text.Quoted

/-!
# File faults

Why an operation on the file tree is refused. Most causes lie in the tree itself;
for the others the system answers, which can refuse what the tree has room for. A
refusal names its cause and the path it is about, and the second path when the
operation has two. Only a file that cannot be filled has lost its path by then. A
path that holds a NUL character is no path at all and is told apart from all
refusals, and so is a path below more missing directories than are made at once.

## Main definitions

* `FileCause`: The causes of refusals.
* `FileCause.label`: A cause as it begins a message.
* `FileFault`: A refusal, or what keeps the operation from being tried.
* `FileFault.message`: The text shown for a refusal.
* `WriteFault`: Why a text could not be written.
-/

namespace QueryDesk

/-- Why an operation on the file tree is refused. -/
inductive FileCause
  | notFound
  | busy
  | alreadyExists
  | notDirectory
  | isDirectory
  | nameTooLong
  | notEmpty
  | linkLoop
  /-- The system has a cause of its own, known by a number and in words. -/
  | system (number : Nat) (words : Text)
  deriving DecidableEq, Repr

namespace FileCause

/-- The number a cause is known by. -/
def number : FileCause → Nat
  | .notFound => 2
  | .busy => 16
  | .alreadyExists => 17
  | .notDirectory => 20
  | .isDirectory => 21
  | .nameTooLong => 36
  | .notEmpty => 39
  | .linkLoop => 40
  | .system number _ => number

/-- The words for a cause. -/
def words : FileCause → Text
  | .notFound => "No such file or directory"
  | .busy => "Device or resource busy"
  | .alreadyExists => "File exists"
  | .notDirectory => "Not a directory"
  | .isDirectory => "Is a directory"
  | .nameTooLong => "File name too long"
  | .notEmpty => "Directory not empty"
  | .linkLoop => "Too many levels of symbolic links"
  | .system _ words => words

/-- The user may not do this, whatever the tree is like. -/
def notPermitted : FileCause := .system 1 "Operation not permitted"

/-- A cause as it begins a message: its number and its words. -/
def label (cause : FileCause) : Text :=
  "[Errno " ++ Text.ofNat cause.number ++ "] " ++ cause.words

/-- The causes that mean no more than that there is nothing at the path. -/
def meansAbsent : FileCause → Bool
  | .notFound | .notDirectory | .linkLoop => true
  | _ => false

end FileCause

/-- A refused operation on the file tree. -/
inductive FileFault
  /-- The operation on a path was refused, perhaps one towards a second path. -/
  | refused (cause : FileCause) (path : Text) (target : Option Text)
  /-- The text holds a NUL character, so it is no path. -/
  | notPath
  /-- More directories are missing one below the other than are made at once. -/
  | tooDeep
  deriving DecidableEq, Repr

namespace FileFault

/-- The text shown for a fault: the cause's number and words, and the paths
    between quotes. -/
def message : FileFault → Text
  | .refused cause path target =>
      let shown : Text := cause.label ++ ": " ++ path.quoted
      match target with
      | none => shown
      | some other => shown ++ " -> " ++ other.quoted
  | .notPath => "embedded null byte"
  | .tooDeep => "nested too deep"

end FileFault

/-- Why a text could not be written to a file. -/
inductive WriteFault
  | file (fault : FileFault)
  /-- Some character has no bytes in the file's encoding. -/
  | notEncodable
  /-- The system stopped while the bytes were written. -/
  | stopped (cause : FileCause)
  deriving DecidableEq, Repr

end QueryDesk
