import QueryDesk.Host.Basic

/-!
# Real paths

The real path of a file is the absolute path to it that goes through no link.
It is found name by name. A link is replaced by the real path of its target,
which is remembered, so that a link met again costs nothing. A link met again
while its own target is still being resolved is part of a loop: then the link
and the names not yet looked at are put together as they stand.

`canonicalPath` is the name under which the desk knows a file: blanks around the
text are dropped, a home directory at its start is filled in, and links are
resolved. When links cannot be resolved, the path is only made absolute.

## Main definitions

* `Trail`: A path resolved so far, from the root or from the working directory.
* `Host.realPath`: The path through no link.
* `Host.expandHome`: A path with the home directory at its start filled in.
* `Host.resolve`: The real path, if it leads into no loop.
* `Host.canonicalPath`: The name under which the desk knows a file.
-/

namespace QueryDesk

/-- The part of a path that is resolved: names without links on the way, either
    from the root or from a directory some steps above the working directory. -/
structure Trail where
  /-- The steps above the working directory, `none` for the root. -/
  above : Option Nat
  names : List Text
  deriving DecidableEq, Repr

namespace Trail

/-- The root. -/
def root : Trail := ⟨none, []⟩

/-- The working directory. -/
def start : Trail := ⟨some 0, []⟩

/-- The trail one name further. -/
def push (trail : Trail) (name : Text) : Trail :=
  { trail with names := trail.names ++ [name] }

/-- The trail one step back. The root is above itself. -/
def pop (trail : Trail) : Trail :=
  if trail.names.isEmpty then { trail with above := trail.above.map (· + 1) }
  else { trail with names := trail.names.dropLast }

/-- Where the trail leads. -/
def place (workDir : Place) (trail : Trail) : Place :=
  match trail.above with
  | none => trail.names
  | some steps => workDir.take (workDir.length - steps) ++ trail.names

/-- How the trail is written. -/
def text (trail : Trail) : Text :=
  match trail.above with
  | none => Path.write 1 trail.names
  | some steps => Text.join ['/'] (List.replicate steps Path.up ++ trail.names)

end Trail

/-- The links met so far. Each has the trail its target resolved to, or none
    while it is being resolved. -/
abbrev SeenLinks := List (Trail × Option Trail)

/-- How resolving a path ended. -/
inductive Resolution
  /-- No link is left on the trail. -/
  | done (trail : Trail) (seen : SeenLinks)
  /-- A loop of links was met, and this is the path with nothing more
      resolved. -/
  | looped (path : Text)
  /-- A name with a NUL character was met. -/
  | notPath
  /-- Links led to links more often than is followed. -/
  | tooDeep

namespace Host

/-- The links that may lead one to the other before resolving gives up. Each is resolved
    from within the resolving of the one that led to it, and no more than a thousand
    calls are made inside of each other. The number is what is left of these where the
    desk asks for the name of a file, and is only as exact as the count of the calls
    before. -/
def maxLinkDepth : Nat := 960

/-- Resolving the names of a path one by one, where `descend` resolves the
    target of a link. -/
def resolveNames (host : Host) (descend : Trail → Text → SeenLinks → Resolution) :
    Trail → List Text → SeenLinks → Resolution
  | trail, [], seen => .done trail seen
  | trail, name :: rest, seen =>
      if name.isEmpty || name == Path.here then resolveNames host descend trail rest seen
      else if name == Path.up then resolveNames host descend trail.pop rest seen
      else if name.elem (Char.ofNat 0) then .notPath
      else
        let next := trail.push name
        match host.files.linkAt? (next.place host.workDir) with
        | none => resolveNames host descend next rest seen
        | some target =>
            -- A link whose target is still being resolved closes a loop.
            match seen.lookup next with
            | some (some known) => resolveNames host descend known rest seen
            | some none => .looped (Path.join next.text (Text.join ['/'] rest))
            | none =>
                match descend trail target ((next, none) :: seen) with
                | .done reached seen =>
                    resolveNames host descend reached rest ((next, some reached) :: seen)
                | .looped path => .looped (Path.join path (Text.join ['/'] rest))
                | .notPath => .notPath
                | .tooDeep => .tooDeep

/-- Resolving a path seen from a trail, through at most the given number of
    links that lead one to the other. -/
def resolveLinks (host : Host) : Nat → Trail → Text → SeenLinks → Resolution
  | 0, _, _, _ => .tooDeep
  | depth + 1, trail, path, seen =>
      host.resolveNames (host.resolveLinks depth)
        (if Path.isAbsolute path then Trail.root else trail) (Text.splitOn '/' path) seen

/-- The absolute path through no link. -/
def realPath (host : Host) (path : Text) : Except Failure Text :=
  match host.resolveLinks maxLinkDepth Trail.start path [] with
  | .done trail _ => .ok (Path.ofPlace (trail.place host.workDir))
  | .looped path => .ok (Path.absolute host.workDir path)
  | .notPath => .error (.file .notPath)
  | .tooDeep => .error .tooDeep

/-- The home directory that a first name beginning with a tilde stands for. -/
def homeOf (host : Host) (name : Text) : Except Failure Text :=
  let home? : Option Text :=
    match name.drop 1 with
    | [] =>
        match host.setting? "HOME" with
        | some home => some home
        | none => host.accounts.head?.map (·.2)
    | account => Table.get? account host.accounts
  if name.elem (Char.ofNat 0) then .error (.file .notPath)
  else
    match home? with
    | none => .error .unknownHome
    | some home =>
        let home : Text := (home.reverse.dropWhile (· == '/')).reverse
        if home.head? == some '~' then .error .unknownHome
        else .ok (home.orElse ['/'])

/-- The path with the home directory at its start filled in. -/
def expandHome (host : Host) (path : FilePath) : Except Failure FilePath :=
  match path.slashes, path.names with
  | 0, name :: rest =>
      if name.head? == some '~' then
        match host.homeOf name with
        | .error failure => .error failure
        | .ok home =>
            let base := FilePath.parse home
            .ok { base with names := base.names ++ rest }
      else .ok path
  | _, _ => .ok path

/-- The real path of a path that leads into no loop of links. -/
def resolve (host : Host) (path : FilePath) : Except Failure Text :=
  match host.realPath path.text with
  | .error failure => .error failure
  | .ok real =>
      -- What is left unresolved of a loop shows when the path is walked.
      match host.files.find host.workDir real with
      | .error .notPath => .error (.file .notPath)
      | .error (.refused .linkLoop _ _) => .error .linkLoop
      | _ => .ok real

/-- The name under which the desk knows a file, empty for a blank text. -/
def canonicalPath (host : Host) (path : Text) : Except Failure Text :=
  let trimmed := Text.trim path
  if trimmed.isEmpty then .ok []
  else
    match host.expandHome (FilePath.parse trimmed) with
    | .error failure => .error failure
    | .ok expanded =>
        match host.resolve expanded with
        | .ok real => .ok real
        | .error _ => .ok (Path.absolute host.workDir expanded.text)

end Host

end QueryDesk
