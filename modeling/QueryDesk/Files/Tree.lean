import QueryDesk.Files.Fault
import QueryDesk.Files.Path
import QueryDesk.Table
import QueryDesk.Text.Utf8

/-!
# File trees

An entry of a file tree is a file, a link or a directory, and a directory holds
entries under names. A place is the list of names that leads to an entry from
the root, which is always a directory.

A path is walked name by name from the root or from the working directory. A
link on the way is replaced by its target, at most `maxLinks` times in one walk,
which is what makes walking total. The directories a walk is in are kept, so that
a pair of dots goes back to the one above without a second walk.

An entry has no owner and no permissions but the one to run a file. What a system
refuses to do to the tree is told beside it, and looking around is never refused.

## Main definitions

* `Entry`: What is at a place, with all that is below it.
* `FileTree`: What the root holds.
* `FileTree.entry?`, `FileTree.put`, `FileTree.remove`: The entry at a place.
* `FileTree.below`: What is below a place.
* `FileTree.LastName`: What a walk does at the last name of a path.
* `FileTree.walk`: The place a path leads to, or the last name that is missing.
* `FileTree.find`: The place and entry at a path, with the last link followed.
* `FileTree.readBytes`: The bytes of the file at a path.
-/

namespace QueryDesk

/-- What is at a place of a file tree, with all that is below it. -/
inductive Entry
  | file (content : Bytes) (executable : Bool)
  | link (target : Text)
  | directory (entries : List (Text × Entry))
  deriving Repr

namespace Entry

/-- What a directory holds. Other entries hold nothing. -/
def entries : Entry → Table Entry
  | .directory entries => entries
  | _ => []

/-- The entry is a regular file. -/
def isFile : Entry → Bool
  | .file _ _ => true
  | _ => false

/-- The entry is a directory. -/
def isDirectory : Entry → Bool
  | .directory _ => true
  | _ => false

/-- The entry is a file that may be executed. -/
def isExecutable : Entry → Bool
  | .file _ executable => executable
  | _ => false

/-- The entry at a place below. -/
def at? (entry : Entry) : Place → Option Entry
  | [] => some entry
  | name :: rest =>
      match Table.get? name entry.entries with
      | none => none
      | some child => child.at? rest

/-- The entry with another one at a place below, to which directories lead. -/
def put (entry : Entry) : Place → Entry → Entry
  | [], new => new
  | name :: rest, new =>
      let child := (Table.get? name entry.entries).getD (.directory [])
      .directory (Table.put name (child.put rest new) entry.entries)

/-- The entry without the one at a place below. -/
def remove (entry : Entry) : Place → Entry
  | [] => entry
  | [name] => .directory (Table.erase name entry.entries)
  | name :: rest =>
      match Table.get? name entry.entries with
      | none => entry
      | some child => .directory (Table.put name (child.remove rest) entry.entries)

mutual

/-- All entries below, each with its place from here. -/
def contents : Entry → List (Place × Entry)
  | .directory entries => contentsUnder entries
  | _ => []

/-- All entries under some names and below them. -/
def contentsUnder : List (Text × Entry) → List (Place × Entry)
  | [] => []
  | (name, entry) :: entries =>
      ([name], entry) :: (contents entry).map (fun (place, found) => (name :: place, found))
        ++ contentsUnder entries

end

end Entry

/-- A file tree: what the root holds. -/
structure FileTree where
  entries : Table Entry
  deriving Repr

/-- How far a walk came: to a place, or to a directory that lacks the last
    name. -/
inductive Reached
  | present (place : Place)
  | missing (parent : Place) (name : Text)
  deriving DecidableEq, Repr

/-- The place a walk came to, or the one that the name it lacks would have. -/
def Reached.place : Reached → Place
  | .present place => place
  | .missing parent name => parent ++ [name]

/-- The entries a walk is in, the innermost first, each with its name in the one
    above it. The root is not among them. -/
abbrev Way := List (Text × Entry)

/-- The place a way leads to. -/
def Way.place (way : Way) : Place :=
  (way.map (·.1)).reverse

namespace FileTree

/-- The root as an entry. -/
def root (tree : FileTree) : Entry :=
  .directory tree.entries

/-- The entry at a place. -/
def entry? (tree : FileTree) (place : Place) : Option Entry :=
  tree.root.at? place

/-- The tree with an entry at a place, to which directories lead. -/
def put (tree : FileTree) (place : Place) (entry : Entry) : FileTree :=
  ⟨(tree.root.put place entry).entries⟩

/-- The tree without the entry at a place. -/
def remove (tree : FileTree) (place : Place) : FileTree :=
  ⟨(tree.root.remove place).entries⟩

/-- The entries below a place, by their places from there. -/
def below (tree : FileTree) (top : Place) : List (Place × Entry) :=
  ((tree.entry? top).map Entry.contents).getD []

/-- There is a directory at the place. -/
def isDirectoryAt (tree : FileTree) (place : Place) : Bool :=
  (tree.entry? place).any Entry.isDirectory

/-- The target of the link at a place. -/
def linkAt? (tree : FileTree) (place : Place) : Option Text :=
  match tree.entry? place with
  | some (.link target) => some target
  | _ => none

/-- The most links one walk follows. -/
def maxLinks : Nat := 40

/-- The most bytes of one name. -/
def maxNameBytes : Nat := 255

/-- The number of bytes from which on a path is too long. -/
def maxPathBytes : Nat := 4096

/-- How far a walk goes without following a link. -/
inductive Advance
  | arrived (place : Place)
  | lacks (parent : Place) (name : Text)
  | meets (above : Way) (target : Text) (rest : List Text)
  | stopped (cause : FileCause)

/-- What a walk does at the last name of a path. -/
inductive LastName
  /-- A link is where the walk ends. -/
  | kept
  /-- A link is followed. -/
  | followed
  /-- A link is followed and a file is to be written, which cannot have a slash
      after its name. -/
  | written
  deriving DecidableEq, Repr

/-- Nothing but slashes come after a name. -/
def endsInSlash (rest : List Text) : Bool :=
  !rest.isEmpty && rest.all (·.isEmpty)

/-- A walk along names up to the first link it has to follow. -/
def advance (tree : FileTree) (last : LastName) : Way → List Text → Advance
  | way, [] => .arrived way.place
  | way, name :: rest =>
      match (way.head?.map (·.2)).getD tree.root with
      | .directory entries =>
          if name.isEmpty || name == Path.here then advance tree last way rest
          else if name == Path.up then advance tree last way.tail rest
          else if last == .written && endsInSlash rest then .stopped .isDirectory
          else if maxNameBytes < (Utf8.encode name).length then .stopped .nameTooLong
          else
            match Table.get? name entries with
            | none => if rest.isEmpty then .lacks way.place name else .stopped .notFound
            | some (.link target) =>
                if rest.isEmpty && last == .kept then .arrived (way.place ++ [name])
                else .meets way target rest
            | some entry => advance tree last ((name, entry) :: way) rest
      | _ => .stopped .notDirectory

/-- A walk along names with at most the given number of links on the way, less
    one. -/
def walkNames (tree : FileTree) (last : LastName) :
    Nat → Way → List Text → Except FileCause Reached
  | 0, _, _ => .error .linkLoop
  | links + 1, way, names =>
      match tree.advance last way names with
      | .arrived place => .ok (.present place)
      | .lacks parent name => .ok (.missing parent name)
      | .stopped cause => .error cause
      | .meets above target rest =>
          tree.walkNames last links (if Path.isAbsolute target then [] else above)
            (Text.splitOn '/' target ++ rest)

/-- The way from an entry to a place below it, as far as there is one. -/
def wayTo : Place → Entry → Way → Way
  | [], _, way => way
  | name :: rest, entry, way =>
      match Table.get? name entry.entries with
      | none => way
      | some child => wayTo rest child ((name, child) :: way)

/-- The place a path leads to from a working directory. -/
def walk (tree : FileTree) (workDir : Place) (last : LastName) (path : Text) :
    Except FileFault Reached :=
  if path.elem (Char.ofNat 0) then .error .notPath
  else if path.isEmpty then .error (.refused .notFound path none)
  else if maxPathBytes ≤ (Utf8.encode path).length then .error (.refused .nameTooLong path none)
  else
    let start := if Path.isAbsolute path then [] else wayTo workDir tree.root []
    match tree.walkNames last (maxLinks + 1) start (Text.splitOn '/' path) with
    | .ok reached => .ok reached
    | .error cause => .error (.refused cause path none)

/-- The place and the entry at a path, with a link at its end followed. -/
def find (tree : FileTree) (workDir : Place) (path : Text) : Except FileFault (Place × Entry) :=
  match tree.walk workDir .followed path with
  | .error fault => .error fault
  | .ok (.missing _ _) => .error (.refused .notFound path none)
  | .ok (.present place) =>
      match tree.entry? place with
      | some entry => .ok (place, entry)
      | none => .error (.refused .notFound path none)

/-- The bytes of the file at a path. -/
def readBytes (tree : FileTree) (workDir : Place) (path : Text) : Except FileFault Bytes :=
  match tree.find workDir path with
  | .error fault => .error fault
  | .ok (_, .file content _) => .ok content
  | .ok _ => .error (.refused .isDirectory path none)

/-- Whether the entry at a path has a property. Where there is nothing it has
    none; a path that cannot be asked about is a fault. -/
def test (tree : FileTree) (workDir : Place) (property : Entry → Bool) (path : Text) :
    Except FileFault Bool :=
  match tree.find workDir path with
  | .ok (_, entry) => .ok (property entry)
  | .error .notPath => .ok false
  | .error .tooDeep => .error .tooDeep
  | .error (.refused cause p target) =>
      if cause.meansAbsent then .ok false else .error (.refused cause p target)

end FileTree

end QueryDesk
