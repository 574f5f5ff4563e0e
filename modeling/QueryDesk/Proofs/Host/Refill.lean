import QueryDesk.Proofs.Host.RealPath
import QueryDesk.Proofs.Host.Source

/-!
# Hosts whose files are written

A source file that is written over a file gets another content, and nothing else is changed
on the disk. One that could not be written leaves at most new directories and a temporary
file, whose name has no blank at its end. Either way what was a file is one, links are what
they were, and every path leads where it led before. So the name under which the desk knows
a file stays its name, however often it is saved.

## Main definitions

* `Host.Refills`: A host with other contents in its files.
* `Host.HasFile`: A file that is reached by its own names.
* `Host.Tidy`: The path of no file has blanks around it.

## Theorems

* `Sound.refill`, `Tidy.refill`, `HasFile.refill`: What stays when files are written.
* `writeSource_refills`: Writing over a file.
* `canonicalPath_hasFile`: The name of a file is the path of its place.
-/

namespace QueryDesk

/-! ## The places of files -/

namespace Entry

/-- What is told of all places of files at or below the entry, seen from above it. -/
def FilesAt (entry : Entry) (P : Place → Prop) : Prop :=
  ∀ place content executable, entry.kindAt? place = some (.file content executable) → P place

theorem filesAt_file (content : Bytes) (executable : Bool) (P : Place → Prop) (h : P []) :
    (file content executable).FilesAt P := by
  intro place bytes runs hkind
  cases place with
  | nil => exact h
  | cons name rest => exact absurd hkind (by simp only [kindAt?, at?, entries, Table.get?,
      Option.map_none, reduceCtorEq, not_false_eq_true])

theorem filesAt_link (target : Text) (P : Place → Prop) : (link target).FilesAt P := by
  intro place bytes runs hkind
  cases place with
  | nil => exact absurd hkind (by simp only [kindAt?, at?, kind, Option.map_some,
      Option.some.injEq, reduceCtorEq, not_false_eq_true])
  | cons name rest => exact absurd hkind (by simp only [kindAt?, at?, entries, Table.get?,
      Option.map_none, reduceCtorEq, not_false_eq_true])

theorem filesAt_directory (entries : Table Entry) (P : Place → Prop)
    (h : ∀ entry ∈ entries, entry.2.FilesAt fun place => P (entry.1 :: place)) :
    (directory entries).FilesAt P := by
  intro place bytes runs hkind
  cases place with
  | nil => exact absurd hkind (by simp only [kindAt?, at?, kind, Option.map_some,
      Option.some.injEq, reduceCtorEq, not_false_eq_true])
  | cons name rest =>
      rw [kindAt?_directory_cons] at hkind
      rcases Option.bind_eq_some_iff.mp hkind with ⟨child, hget, hchild⟩
      exact h (name, child) (Table.mem_of_get? name child entries hget) rest bytes runs hchild

end Entry

namespace Host

/-- The files may have other contents and there may be more directories. Relative paths begin
    where they did. -/
structure Refills (host after : Host) : Prop where
  files : host.files.Refills after.files
  workDir : after.workDir = host.workDir

/-- There is a file at the place, which its own names lead to. -/
structure HasFile (host : Host) (place : Place) : Prop where
  direct : host.files.Direct place
  file : host.files.FileAt place

/-- The path of no file has blanks around it. -/
def Tidy (host : Host) : Prop :=
  ∀ place, host.files.FileAt place → Text.trim (Path.ofPlace place) = Path.ofPlace place

variable {host after : Host}

theorem Sound.refill (h : host.Sound) (hrefills : host.Refills after) : after.Sound where
  workDir := by
    rw [hrefills.workDir]
    exact h.workDir.refill hrefills.files
  directory := by
    rw [hrefills.workDir]
    exact hrefills.files.directory h.directory
  targets := h.targets.refill hrefills.files

-- The name of a temporary file ends in no blank, and its path begins with a slash.
theorem trim_of_leftAt {files : FileTree} {place : Place} (h : files.LeftAt place) :
    Text.trim (Path.ofPlace place) = Path.ofPlace place := by
  rcases h.2 with ⟨parent, target, marks, rfl⟩
  have hpath : ∃ middle, Path.ofPlace (parent ++ [FileTree.temporaryName target marks])
      = '/' :: (middle ++ ['p']) := by
    refine ⟨parent.flatMap (· ++ ['/']) ++ (target ++ ".RANDOM" ++ List.replicate marks '_'
      ++ ".tm"), ?_⟩
    have hname : FileTree.temporaryName target marks
        = (target ++ ".RANDOM" ++ List.replicate marks '_' ++ ".tm") ++ ['p'] :=
      (List.append_assoc _ ['.', 't', 'm'] ['p']).symm
    change '/' :: Text.join ['/'] (parent ++ [FileTree.temporaryName target marks]) = _
    rw [Text.join_append, Text.join, List.intercalate_singleton, hname]
    simp only [List.append_assoc]
  rcases hpath with ⟨middle, hmiddle⟩
  rw [hmiddle]
  exact Text.trim_bounded '/' middle 'p' (by decide) (by decide)

theorem Tidy.refill (h : host.Tidy) (hrefills : host.Refills after) : after.Tidy := by
  intro place hfile
  rcases hrefills.files.file_or_left hfile with hold | hleft
  · exact h place hold
  · exact trim_of_leftAt hleft

theorem HasFile.refill {place : Place} (h : host.HasFile place) (hrefills : host.Refills after) :
    after.HasFile place :=
  ⟨h.direct.refill hrefills.files, hrefills.files.file h.file⟩

/-- Writing to the path of a file changes nothing but contents, whatever comes of it. -/
theorem writeSource_refills (place : Place) (text ending : Text) (result : Except Failure Unit)
    (hplace : host.HasFile place)
    (h : host.writeSource (Path.ofPlace place) text ending .utf8 = (after, result)) :
    host.Refills after := by
  refine ⟨?_, writeSource_workDir h⟩
  cases result with
  | error failure =>
      rcases writeSource_error host after _ text ending failure h with ⟨files, rfl, hgrows⟩
      exact hgrows.refills
  | ok done =>
      rcases hplace.file with ⟨content, executable, hkind⟩
      rcases writeSource_payload host after _ text ending place hplace.direct.normal
        (hplace.direct.walk_kept host.workDir content executable hkind) h with ⟨hfile, hsame⟩
      intro other
      -- At the place there was a file and there is one, and elsewhere nothing has changed.
      by_cases hother : other = place
      · exact Or.inr (Or.inr (hother ▸ ⟨hplace.file, _, _, hfile⟩))
      · exact Or.inl (hsame other hother)

/-- A file that can be found is known under the path of its place, and this is its real path. -/
theorem hasFile_of_find (hsound : host.Sound) (path : Text) (place : Place) (content : Bytes)
    (executable : Bool)
    (h : host.files.find host.workDir path = .ok (place, .file content executable)) :
    host.HasFile place ∧ host.realPath path = .ok (Path.ofPlace place) := by
  rcases (FileTree.find_eq_ok_iff host.workDir path place _).mp h with ⟨hwalk, hentry⟩
  rcases realPath_of_walk hsound path place hwalk with ⟨hreal, hdirect⟩
  refine ⟨⟨hdirect, content, executable, ?_⟩, hreal⟩
  rw [FileTree.kind?, hentry]
  rfl

/-- The name under which a file is known is known as itself. -/
theorem canonicalPath_hasFile (hsound : host.Sound) (htidy : host.Tidy) {place : Place}
    (h : host.HasFile place) :
    host.canonicalPath (Path.ofPlace place) = .ok (Path.ofPlace place) :=
  canonicalPath_ofPlace hsound.targets place h.direct (htidy place h.file)

end Host

end QueryDesk
