import QueryDesk.Text.Basic

/-!
# Paths

A path is written with slashes between names. Two readings of the same text are
needed. `FilePath` is the one that keeps a path's meaning while it drops empty
names and single dots: its dots-dots stay, because what they mean depends on
links. `normalize` also takes a name away for each pair of dots after it, which
is right only where no link is involved.

A path that begins with exactly two slashes keeps both; one or more than two
count as one.

## Main definitions

* `FilePath`: Leading slashes and names.
* `FilePath.parse`: The path a text writes.
* `FilePath.text`: How a path is written.
* `FilePath.append`: A path below another.
* `Path.join`: Two path texts put together.
* `Path.split`: A path text cut before its last name.
* `Path.normalize`: The path text without empty names, dots and pairs of dots.
* `Place`: Where an entry of a file tree is: the names that lead to it from the
  root.
-/

namespace QueryDesk

/-- The names that lead to an entry from the root of a file tree. -/
abbrev Place := List Text

namespace Path

/-- The name of a directory in itself. -/
def here : Text := ['.']

/-- The name of a directory's parent in it. -/
def up : Text := ['.', '.']

/-- The path begins at the root. -/
def isAbsolute (path : Text) : Bool :=
  path.head? == some '/'

/-- How many leading slashes count: none, one, or exactly two. -/
def leadingSlashes (path : Text) : Nat :=
  match (path.takeWhile (· == '/')).length with
  | 0 => 0
  | 2 => 2
  | _ => 1

/-- The second path seen from the first. An absolute path stands for itself. -/
def join (base path : Text) : Text :=
  if isAbsolute path then path
  else if base.isEmpty || base.getLast? == some '/' then base ++ path
  else base ++ '/' :: path

/-- The last name of a path, which is empty after a slash. -/
def baseName (path : Text) : Text :=
  (path.reverse.takeWhile (· != '/')).reverse

/-- A path without its last name and the slashes before it. -/
def dirName (path : Text) : Text :=
  let head := path.take (path.length - (baseName path).length)
  if head.all (· == '/') then head else (head.reverse.dropWhile (· == '/')).reverse

/-- One name applied to the names reached so far: dots do not move, a pair of
    dots goes back one name, and stays before the first when the path is
    relative. -/
def stepLexical (absolute : Bool) (reached : List Text) (name : Text) : List Text :=
  if name.isEmpty || name == here then reached
  else if name == up then
    match reached.getLast? with
    | none => if absolute then reached else [up]
    | some last => if last == up then reached ++ [up] else reached.dropLast
  else reached ++ [name]

/-- The names left when pairs of dots take away the names before them. -/
def lexicalNames (absolute : Bool) (names : List Text) : List Text :=
  names.foldl (stepLexical absolute) []

/-- The text of leading slashes and names. A path of nothing is a dot. -/
def write (slashes : Nat) (names : List Text) : Text :=
  if slashes = 0 && names.isEmpty then here
  else List.replicate slashes '/' ++ Text.join ['/'] names

/-- The path text without empty names, dots and pairs of dots. -/
def normalize (path : Text) : Text :=
  write (leadingSlashes path) (lexicalNames (isAbsolute path) (Text.splitOn '/' path))

/-- The path text of a place. -/
def ofPlace (place : Place) : Text :=
  write 1 place

/-- The path made absolute from a directory and normalized. -/
def absolute (workDir : Place) (path : Text) : Text :=
  normalize (if isAbsolute path then path else join (ofPlace workDir) path)

end Path

/-- A path that keeps its pairs of dots: leading slashes and names. -/
structure FilePath where
  slashes : Nat
  names : List Text
  deriving DecidableEq, Repr

namespace FilePath

/-- The path a text writes: empty names and single dots do not count. -/
def parse (path : Text) : FilePath where
  slashes := Path.leadingSlashes path
  names := (Text.splitOn '/' path).filter fun name => !(name.isEmpty || name == Path.here)

/-- How the path is written. -/
def text (path : FilePath) : Text :=
  Path.write path.slashes path.names

/-- A path below another. An absolute path stands for itself. -/
def append (base path : FilePath) : FilePath :=
  if 0 < path.slashes then path else { base with names := base.names ++ path.names }

/-- The path without its last name. -/
def parent (path : FilePath) : FilePath :=
  { path with names := path.names.dropLast }

/-- The last name, empty for a path that has none. -/
def name (path : FilePath) : Text :=
  path.names.getLast?.getD []

end FilePath

end QueryDesk
