import QueryDesk.Files.Tree

/-!
# Refusals

A file tree rules out what it has no room for: a directory where a file is, a name
that is too long. The system that keeps the tree can refuse more than that, for want
of a permission, of space, or of a disk that works. The tree does not tell what it
refuses, so this is given beside the tree, and all that is said of changes to a tree
is said of every system.

What is refused may depend on the tree and on the attempt, and so on all that was done
before. An attempt to fill a file can be refused when a part of the bytes is written
already, and this part is then in the file.

To look around in a tree is never refused, and neither is to read a source file: one
that was written is a new file, made by whoever reads it. The settings file is written
in place and keeps the permissions it has, and these may admit that it is written and
not that it is read. So reading it is an attempt like a change.

## Main definitions

* `Attempt`: What a system can be asked to do.
* `Attempt.Reads`, `Attempt.Removes`: Attempts to read and to remove.
* `Refusals`: What a system refuses.
* `Refusals.none`, `Refusals.forbidding`: Systems that refuse nothing, and some attempts.
* `Refusals.Admits`: Attempts of some kind are not refused.
* `FileTree.openBytes`: The bytes of a file, unless the system keeps them.
-/

namespace QueryDesk

/-- What a system can be asked to do at the places of a tree. -/
inductive Attempt
  | makeDirectory (place : Place)
  | makeFile (place : Place)
  /-- A file is opened to get other bytes. -/
  | openFile (place : Place)
  /-- Bytes are put into an empty file. -/
  | fill (place : Place) (content : Bytes)
  | move (source target : Place)
  | remove (place : Place)
  | read (place : Place)
  deriving DecidableEq, Repr

/-- A file is to be read. -/
def Attempt.Reads : Attempt → Prop
  | .read _ => True
  | _ => False

/-- Something is to be removed. -/
def Attempt.Removes : Attempt → Prop
  | .remove _ => True
  | _ => False

/-- What a system refuses. -/
structure Refusals where
  /-- Why an attempt on a tree is refused, if it is. -/
  cause? : FileTree → Attempt → Option FileCause
  /-- How many bytes are in a file when filling it was refused. -/
  filled : FileTree → Place → Nat

instance : Repr Refusals := ⟨fun _ _ => "refusals"⟩

namespace Refusals

/-- A system that refuses nothing. -/
def none : Refusals := ⟨fun _ _ => Option.none, fun _ _ => 0⟩

/-- A system that does not permit attempts of some kind, and refuses nothing else. -/
def forbidding (asked : Attempt → Bool) : Refusals where
  cause? _ attempt := if asked attempt then some .notPermitted else Option.none
  filled _ _ := 0

/-- The system refuses nothing of what it is asked. -/
def Admits (refusals : Refusals) (asked : Attempt → Prop) : Prop :=
  ∀ tree attempt, asked attempt → refusals.cause? tree attempt = Option.none

theorem admits_none (asked : Attempt → Prop) : none.Admits asked := fun _ _ _ => rfl

end Refusals

namespace FileTree

/-- The bytes of the file at a path, unless the system keeps them from being read. -/
def openBytes (tree : FileTree) (refusals : Refusals) (workDir : Place) (path : Text) :
    Except FileFault Bytes :=
  match tree.find workDir path with
  | .error fault => .error fault
  | .ok (place, _) =>
      match refusals.cause? tree (.read place) with
      | some cause => .error (.refused cause path none)
      | none => tree.readBytes workDir path

end FileTree

end QueryDesk
