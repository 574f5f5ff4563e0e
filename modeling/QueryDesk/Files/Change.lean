import QueryDesk.Files.Refusals

/-!
# Changing a file tree

A file is changed in one of two ways. Settings are written in place: the bytes
of the file at the path are replaced, a link at its end is followed, and a
missing file is made. Sources are written through a temporary file that is moved
over the target when it is complete, so that a failure leaves the target as it
was, and a link at the target is replaced and not followed. The temporary file
is beside the target as the target's path is written. A pair of dots after a
link leads elsewhere when the path is walked, and then the two are apart.

The system can refuse each of these changes, and then the change is not made; only
bytes that were written before it refused are in the file. The temporary file is taken
away again when its text could not be written or it could not be moved. Nothing is
left to be done when that is refused, too: it stays where it is, and the failure that
came first is given back.

Every operation gives the tree it leaves behind together with its outcome,
because a failed operation can have made directories first.

## Main definitions

* `FileTree.makeDirectory`: One new directory.
* `FileTree.makeDirectories`: A directory and all that are missing above it.
* `FileTree.overwrite`: The bytes of a file replaced in place.
* `FileTree.temporaryFor`: Where a temporary file for a target is made.
* `FileTree.fill`: A temporary file with a text in it.
* `FileTree.move`: A file moved to a path.
* `FileTree.cleanUp`: A temporary file taken away again.
* `FileTree.replaceFile`: A file put at a path by way of a temporary one.
-/

namespace QueryDesk

namespace FileTree

/-- One new directory at a path. -/
def makeDirectory (tree : FileTree) (refusals : Refusals) (workDir : Place) (path : Text) :
    FileTree × Except FileFault Unit :=
  match tree.walk workDir .kept path with
  | .error fault => (tree, .error fault)
  | .ok (.present _) => (tree, .error (.refused .alreadyExists path none))
  | .ok (.missing parent name) =>
      match refusals.cause? tree (.makeDirectory (parent ++ [name])) with
      | some cause => (tree, .error (.refused cause path none))
      | none => (tree.put (parent ++ [name]) (.directory []), .ok ())

/-- The outcome of making a directory where one that exists already is as good
    as a new one. -/
def acceptExisting (tree : FileTree) (workDir : Place) (path : Text) (fault : FileFault) :
    Except FileFault Unit :=
  match fault with
  | .notPath | .tooDeep => .error fault
  | .refused _ _ _ =>
      match tree.test workDir Entry.isDirectory path with
      | .ok true => .ok ()
      | .ok false => .error fault
      | .error other => .error other

/-- How many directories that are missing one below the other are made at
    once. Each is made from within the making of the one below it, and no more
    than a thousand calls are made inside of each other. The number is what is
    left of these where the desk writes a file, and is only as exact as the
    count of the calls before. -/
def maxMissing : Nat := 988

/-- The directory of the given names and all that are missing above it. The
    first argument bounds how many may be missing, the second one holds the names
    from the last one up. -/
def makeNames (refusals : Refusals) (workDir : Place) (slashes : Nat) :
    Nat → List Text → FileTree → FileTree × Except FileFault Unit
  | 0, _, tree => (tree, .error .tooDeep)
  | room + 1, names, tree =>
    let path := Path.write slashes names.reverse
    match tree.makeDirectory refusals workDir path with
    | (tree, .ok ()) => (tree, .ok ())
    | (tree, .error (.refused .notFound p target)) =>
        match names with
        | [] => (tree, .error (.refused .notFound p target))
        | _ :: above =>
            -- The directory above is missing, so it is made first.
            match makeNames refusals workDir slashes room above tree with
            | (tree, .error fault) => (tree, .error fault)
            | (tree, .ok ()) =>
                match tree.makeDirectory refusals workDir path with
                | (tree, .ok ()) => (tree, .ok ())
                | (tree, .error (.refused .notFound p target)) =>
                    (tree, .error (.refused .notFound p target))
                | (tree, .error fault) => (tree, tree.acceptExisting workDir path fault)
    | (tree, .error fault) => (tree, tree.acceptExisting workDir path fault)

/-- The directory at a path and all that are missing above it. -/
def makeDirectories (tree : FileTree) (refusals : Refusals) (workDir : Place)
    (path : FilePath) : FileTree × Except FileFault Unit :=
  makeNames refusals workDir path.slashes maxMissing path.names.reverse tree

/-- A file at a place, empty at first and then with all of its bytes, or with
    those that were written before the system stopped. -/
def fillFile (tree : FileTree) (refusals : Refusals) (place : Place) (executable : Bool)
    (content : Bytes) : FileTree × Except WriteFault Unit :=
  let emptied := tree.put place (.file [] executable)
  match refusals.cause? emptied (.fill place content) with
  | some cause =>
      (tree.put place (.file (content.take (refusals.filled emptied place)) executable),
        .error (.stopped cause))
  | none => (tree.put place (.file content executable), .ok ())

/-- A file at a place, opened by an attempt and then filled. -/
def writeFile (tree : FileTree) (refusals : Refusals) (attempt : Attempt) (place : Place)
    (executable : Bool) (path : Text) (content : Bytes) : FileTree × Except WriteFault Unit :=
  match refusals.cause? tree attempt with
  | some cause => (tree, .error (.file (.refused cause path none)))
  | none => tree.fillFile refusals place executable content

/-- The file at a path with other bytes. A link at its end is followed, and a
    file that is missing is made. -/
def overwrite (tree : FileTree) (refusals : Refusals) (workDir : Place) (path : Text)
    (content : Bytes) : FileTree × Except WriteFault Unit :=
  match tree.walk workDir .written path with
  | .error fault => (tree, .error (.file fault))
  | .ok (.missing parent name) =>
      let place := parent ++ [name]
      tree.writeFile refusals (.makeFile place) place false path content
  | .ok (.present place) =>
      match tree.entry? place with
      | some (.file _ executable) =>
          tree.writeFile refusals (.openFile place) place executable path content
      | _ => (tree, .error (.file (.refused .isDirectory path none)))

/-- A temporary file: its place, and the path it was made by. -/
structure Temporary where
  place : Place
  path : Text
  deriving DecidableEq, Repr

/-- The name of a temporary file beside a target. The marks at the end of its
    middle part tell it from names that are taken. -/
def temporaryName (target : Text) (marks : Nat) : Text :=
  target ++ ".RANDOM" ++ List.replicate marks '_' ++ ".tmp"

/-- The first temporary name that is free in a directory. There are no more names
    taken than there are entries. -/
def freeName (entries : Table Entry) (target : Text) : Text :=
  let marks := (List.range (entries.length + 1)).find? fun marks =>
    !Table.has (temporaryName target marks) entries
  temporaryName target (marks.getD 0)

/-- How many bytes a temporary name has more than its target. -/
def temporaryBytes : Nat := 13

/-- The temporary file moved to a path. A link at the path is replaced. A
    directory there is in the way, the more so when the temporary file is below
    it, and a path that ends in no name cannot be moved to. -/
def move (tree : FileTree) (refusals : Refusals) (workDir : Place) (source : Temporary)
    (path : Text) : FileTree × Except FileFault Unit :=
  let refuse := fun cause =>
    (tree, Except.error (FileFault.refused cause source.path (some path)))
  match tree.walk workDir .kept path with
  | .error (.refused cause _ _) => refuse cause
  | .error fault => (tree, .error fault)
  | .ok reached =>
      let place := reached.place
      let last := Path.baseName path
      if last.isEmpty || last == Path.here || last == Path.up then refuse .busy
      else if place.isPrefixOf source.place then refuse .notEmpty
      else if tree.isDirectoryAt place then refuse .isDirectory
      else
        match refusals.cause? tree (.move source.place place), tree.entry? source.place with
        | some cause, _ => refuse cause
        | none, some entry => ((tree.remove source.place).put place entry, .ok ())
        | none, none => refuse .notFound

/-- The temporary file to be made for a target. Pairs of dots take away the names
    before them in the target's path, whether or not these are links. -/
def temporaryFor (tree : FileTree) (refusals : Refusals) (workDir : Place) (path : FilePath) :
    Except FileFault Temporary :=
  let directory := Path.absolute workDir path.parent.text
  let refuse := fun cause =>
    Except.error (FileFault.refused cause (Path.join directory (temporaryName path.name 0)) none)
  if path.name.elem (Char.ofNat 0) then .error .notPath
  else if maxPathBytes ≤ (Utf8.encode (Path.join directory path.name)).length + temporaryBytes then
    refuse .nameTooLong
  else
    match tree.find workDir directory with
    | .error (.refused cause _ _) => refuse cause
    | .error fault => .error fault
    | .ok (place, .directory entries) =>
        if maxNameBytes < (Utf8.encode path.name).length + temporaryBytes then refuse .nameTooLong
        else
          let name := freeName entries path.name
          match refusals.cause? tree (.makeFile (place ++ [name])) with
          | some cause => refuse cause
          | none => .ok ⟨place ++ [name], Path.join directory name⟩
    | .ok _ => refuse .notDirectory

/-- The temporary file with a text in it. A text that has no bytes in the wanted
    encoding is found out only when the file is there. -/
def fill (tree : FileTree) (refusals : Refusals) (source : Temporary) :
    Option Bytes → FileTree × Except WriteFault Unit
  | none => (tree.put source.place (.file [] false), .error .notEncodable)
  | some bytes => tree.fillFile refusals source.place false bytes

/-- The tree without the temporary file, unless the system refuses to remove it. -/
def cleanUp (tree : FileTree) (refusals : Refusals) (source : Temporary) : FileTree :=
  match refusals.cause? tree (.remove source.place) with
  | some _ => tree
  | none => tree.remove source.place

/-- A file with the given bytes put at a path: written to a temporary file that
    is moved over whatever the path names. When the text has no bytes in the
    wanted encoding, or the system stops, the temporary file is taken away. -/
def replaceFile (tree : FileTree) (refusals : Refusals) (workDir : Place) (path : FilePath)
    (content : Option Bytes) : FileTree × Except WriteFault Unit :=
  match tree.makeDirectories refusals workDir path.parent with
  | (tree, .error fault) => (tree, .error (.file fault))
  | (tree, .ok ()) =>
      match tree.temporaryFor refusals workDir path with
      | .error fault => (tree, .error (.file fault))
      | .ok source =>
          match tree.fill refusals source content with
          | (tree, .error fault) => (tree.cleanUp refusals source, .error fault)
          | (tree, .ok ()) =>
              match tree.move refusals workDir source path.text with
              | (tree, .ok ()) => (tree, .ok ())
              | (tree, .error fault) => (tree.cleanUp refusals source, .error (.file fault))

end FileTree

end QueryDesk
