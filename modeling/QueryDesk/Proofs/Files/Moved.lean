import QueryDesk.Proofs.Files.Direct

/-!
# Replacing a file by any path

A file can be replaced by a path of any form: from the root or from the working directory,
with links and pairs of dots on the way. It is written under a free name, where the path
without its pairs of dots has its directory, and then moved to where the path leads when it
is walked, which can be in another directory.

What the path leads to is told by the walk after the missing directories were made and
before the temporary file was there. The temporary file makes no difference to the walk: it
is no directory and no link, so a walk that ends in a directory cannot have passed it, and
neither can the way to the working directory that a relative path begins with. The same is
said of the file that comes to stand where the path leads. If the path can still be walked
then, it leads to this file. It can be when the file replaced no link, because only a link
that is gone can have been needed on the way.

## Main definitions

* `FileTree.Puts`: A file that was put where a path leads.

## Theorems

* `Filled.wayTo_place`: A way that ends in a directory does not come through the file.
* `Filled.walk_baseName`: A path that leads somewhere did so without the file.
* `Filled.walk_still`: A path leads where it did when no link was replaced.
* `replaceFile_ok`: Replacing a file puts it where the path leads.
-/

namespace QueryDesk

/-- The parts of a path are those before its last name, and that name. -/
theorem Path.splitOn_baseName (path : Text) :
    ∃ front, Text.splitOn '/' path = front ++ [baseName path] := by
  rcases Text.splitOn_back (List.not_mem_nil (a := '/')) path with ⟨front, hsplit, -⟩
  exact ⟨front, hsplit⟩

namespace FileTree

variable {tree : FileTree} {refusals : Refusals}

/-! ## A file that was put at a place -/

namespace Filled

variable {filled : FileTree} {place : Place} {content : Bytes}

-- The file is a dead end.
theorem deadEnds (h : Filled tree filled place content) : DeadEnds filled tree (· = place) := by
  refine ⟨h.same, fun other hother => ?_, fun other target hother => ?_⟩
  · rw [hother, h.file]
    simp only [ne_eq, Option.some.injEq, reduceCtorEq, not_false_eq_true]
  · rw [hother, h.file]
    simp only [ne_eq, Option.some.injEq, reduceCtorEq, not_false_eq_true]

theorem ne_of_directory (h : Filled tree filled place content) {other : Place}
    (hother : filled.kind? other = some .directory) : other ≠ place := fun heq =>
  h.deadEnds.noDirectory other heq hother

/-- A way that ends in a directory does not come through the file. -/
theorem wayTo_place (h : Filled tree filled place content) (names : List Text)
    {entry other : Entry} {way otherWay : Way} (hways : way.place = otherWay.place)
    (hentry : filled.entry? way.place = some entry)
    (hother : tree.entry? otherWay.place = some other)
    (hend : filled.kind? (wayTo names entry way).place = some .directory) :
    (wayTo names other otherWay).place = (wayTo names entry way).place := by
  induction names generalizing entry other way otherWay with
  | nil => exact hways.symm
  | cons name rest ih =>
      have hchild := kind?_concat hentry name
      have hotherChild := kind?_concat hother name
      rw [wayTo] at hend ⊢
      rw [wayTo]
      by_cases hthrough : way.place ++ [name] = place
      · -- The way goes through the file, and comes no further.
        rw [hthrough, h.file] at hchild
        rcases Option.map_eq_some_iff.mp hchild.symm with ⟨file, hfound, hfile⟩
        have hstop : wayTo rest file ((name, file) :: way) = (name, file) :: way := by
          cases file with
          | file => cases rest <;> rfl
          | link | directory =>
              exact absurd hfile (by simp only [Entry.kind, reduceCtorEq, not_false_eq_true])
        rw [hfound] at hend
        simp only [hstop] at hend
        rw [Way.place_cons] at hend
        exact absurd hthrough (h.ne_of_directory hend)
      · rw [h.same _ hthrough, hways, hotherChild] at hchild
        cases hfound : Table.get? name entry.entries with
        | none =>
            rw [hfound, Option.map_none, Option.map_eq_none_iff] at hchild
            rw [hchild]
            exact hways.symm
        | some child =>
            rw [hfound] at hchild hend
            rcases Option.map_eq_some_iff.mp hchild with ⟨otherChild, hotherFound, -⟩
            rw [hotherFound]
            refine ih ?_ ?_ ?_ hend
            · rw [Way.place_cons, Way.place_cons, hways]
            · rw [Way.place_cons, entry?_concat hentry, hfound]
            · rw [Way.place_cons, entry?_concat hother, hotherFound]

theorem startWay_place (h : Filled tree filled place content) (workDir : Place) (path : Text)
    (hstart : filled.kind? (filled.startWay workDir path).place = some .directory) :
    (tree.startWay workDir path).place = (filled.startWay workDir path).place := by
  unfold startWay at hstart ⊢
  by_cases habsolute : Path.isAbsolute path = true
  · rw [if_pos habsolute, if_pos habsolute]
  · rw [if_neg habsolute] at hstart ⊢
    rw [if_neg habsolute]
    exact h.wayTo_place workDir rfl rfl rfl hstart

/-- Where a path leads when the file is there, it leads without it. -/
theorem walk_baseName (h : Filled tree filled place content) (workDir : Place) (path : Text)
    (reached : Reached) (hname : Path.Proper (Path.baseName path))
    (hwalk : filled.walk workDir .kept path = .ok reached) :
    ∃ parent, reached.place = parent ++ [Path.baseName path]
      ∧ filled.kind? parent = some .directory
      ∧ ∃ before, tree.walk workDir .kept path = .ok before ∧ before.place = reached.place := by
  rcases Path.splitOn_baseName path with ⟨front, hfront⟩
  rcases (walk_kept_iff workDir path front _ reached hname hfront).mp hwalk with
    ⟨hadmitted, used, parent, hused, hroute, hparent, hshort, hreached⟩
  have hplace : reached.place = parent ++ [Path.baseName path] := by
    rw [hreached]
    split <;> rfl
  -- The walk begins in a directory: where its names begin, or where it ends if there are none.
  have hstart : filled.kind? (filled.startWay workDir path).place = some .directory := by
    by_cases hnone : front = []
    · subst hnone
      generalize (filled.startWay workDir path).place = start at hroute ⊢
      cases hroute
      exact hparent
    · exact hroute.directory hnone
  have hbefore : tree.Route (tree.startWay workDir path).place front used parent := by
    rw [h.startWay_place workDir path hstart]
    exact hroute.transfer h.deadEnds (h.ne_of_directory hparent)
  refine ⟨parent, hplace, hparent, _, (walk_kept_iff workDir path front _ _ hname hfront).mpr
    ⟨hadmitted, used, parent, hused, hbefore, ?_, hshort, rfl⟩, ?_⟩
  · rw [← h.same parent (h.ne_of_directory hparent), hparent]
  · rw [hplace]
    split <;> rfl

-- Where neither a directory nor a link was is a dead end without the file, too.
theorem deadEnds_before (h : Filled tree filled place content)
    (hold : tree.kind? place ≠ some .directory) (hlink : tree.linkAt? place = none) :
    DeadEnds tree filled (· = place) := by
  refine ⟨fun other hother => (h.same other hother).symm, fun other hother => ?_,
    fun other target hother => ?_⟩
  · rwa [hother]
  · rw [hother]
    exact (linkAt?_eq_none_iff tree place).mp hlink target

/-- A path leads where it led without the file, when it begins in a directory and no link
    was replaced. -/
theorem walk_still (h : Filled tree filled place content) (workDir : Place) (path : Text)
    (reached : Reached) (hname : Path.Proper (Path.baseName path))
    (hstart : tree.kind? (startOf workDir path) = some .directory)
    (hold : tree.kind? place ≠ some .directory) (hlink : tree.linkAt? place = none)
    (hwalk : tree.walk workDir .kept path = .ok reached) (hplace : reached.place = place) :
    filled.walk workDir .kept path = .ok (.present place) := by
  rcases Path.splitOn_baseName path with ⟨front, hfront⟩
  rcases (walk_kept_iff workDir path front _ reached hname hfront).mp hwalk with
    ⟨hadmitted, used, parent, hused, hroute, hparent, hshort, hreached⟩
  have hgoal : parent ++ [Path.baseName path] = place := by
    rw [← hplace, hreached]
    split <;> rfl
  have hapart {other : Place} (hother : tree.kind? other = some .directory) : other ≠ place :=
    fun heq => hold (heq ▸ hother)
  -- The walk begins where it began, for what it begins in is still a directory.
  have hbegins : filled.kind? (startOf workDir path) = some .directory :=
    (h.same _ (hapart hstart)).trans hstart
  have hafter : filled.Route (filled.startWay workDir path).place front used parent := by
    rw [FileTree.startWay_place workDir path hbegins]
    rw [FileTree.startWay_place workDir path hstart] at hroute
    exact hroute.transfer (h.deadEnds_before hold hlink) (hapart hparent)
  refine (walk_kept_iff workDir path front _ _ hname hfront).mpr
    ⟨hadmitted, used, parent, hused, hafter, (h.same _ (hapart hparent)).trans hparent, hshort, ?_⟩
  rw [hgoal, h.file]

end Filled

/-! ## Replacing a file -/

-- Nothing is moved to a path that ends in no name.
theorem move_proper {moved : FileTree} {workDir : Place} {source : Temporary} {path : Text}
    (h : tree.move refusals workDir source path = (moved, .ok ())) :
    Path.Proper (Path.baseName path) := by
  unfold move at h
  simp only at h
  split at h
  · exact absurd h failed_ne_ok
  · exact absurd h failed_ne_ok
  split at h
  · exact absurd h failed_ne_ok
  next hlast =>
  rw [Bool.or_eq_true, not_or] at hlast
  exact Path.proper_of_moves _ hlast.1 hlast.2 (Path.slash_not_mem_baseName path)

/-- A file was put where a path leads, at the place of a link if the path leads to one, and
    nothing else has changed. The path leads nowhere else now, and it does lead there when it
    begins in a directory and no link was replaced. -/
def Puts (workDir : Place) (path : Text) (content : Bytes) (made final : FileTree) : Prop :=
  ∃ reached, made.walk workDir .kept path = .ok reached
    ∧ made.kind? reached.place ≠ some .directory
    ∧ Filled made final reached.place content
    ∧ (∀ now, final.walk workDir .kept path = .ok now → now = .present reached.place)
    ∧ (made.kind? (startOf workDir path) = some .directory →
      made.linkAt? reached.place = none →
        final.walk workDir .kept path = .ok (.present reached.place))

-- The path leads to the file, if it still leads somewhere.
theorem Filled.walk_present {filled : FileTree} {content : Bytes} (workDir : Place) (path : Text)
    (reached now : Reached) (hname : Path.Proper (Path.baseName path))
    (hwalk : tree.walk workDir .kept path = .ok reached)
    (h : Filled tree filled reached.place content)
    (hnow : filled.walk workDir .kept path = .ok now) : now = .present reached.place := by
  rcases h.walk_baseName workDir path now hname hnow with ⟨_, -, -, before, hbefore, hsame⟩
  rw [hwalk, Except.ok.injEq] at hbefore
  rw [← hbefore] at hsame
  cases now with
  | present place => exact congrArg Reached.present hsame.symm
  | missing parent name =>
      have hnone := (walk_missing workDir .kept path parent name (by decide) hnow).2
      have hfile := h.file
      rw [hsame] at hfile
      exact absurd (hnone.symm.trans hfile) (Option.some_ne_none _).symm

-- A file that was put at one place and moved to another one is put at that one.
theorem Filled.of_moved {made : FileTree} {beside parent : Place} {free name : Text}
    {content : Bytes} (hbeside : made.kind? beside = some .directory)
    (hfree : made.kind? (beside ++ [free]) = none)
    (hparent : (made.put (beside ++ [free]) (.file content false)).kind? parent = some .directory)
    (hold : (made.put (beside ++ [free]) (.file content false)).kind? (parent ++ [name])
      ≠ some .directory)
    (hapart : parent ++ [name] ≠ beside ++ [free]) :
    Filled made (((made.put (beside ++ [free]) (.file content false)).remove
      (beside ++ [free])).put (parent ++ [name]) (.file content false)) (parent ++ [name])
      content := by
  have hkinds := (kind?_written_moved made beside parent free name content hbeside hfree _ rfl
    hparent hold hapart).2
  refine ⟨(hkinds _).trans (if_pos rfl), fun other hother => ?_⟩
  rw [hkinds, if_neg hother]
  by_cases htemporary : other = beside ++ [free]
  · rw [if_pos htemporary, htemporary, hfree]
  · rw [if_neg htemporary]
    exact (Filled.of_put hbeside hfree content).same other htemporary

/-- Moving the temporary file puts it where the path leads without it. -/
theorem move_puts {made moved : FileTree} {beside : Place} {free : Text} {content : Bytes}
    (workDir : Place) (source : Temporary) (path : Text)
    (hsource : source.place = beside ++ [free]) (hbeside : made.kind? beside = some .directory)
    (hfree : made.kind? (beside ++ [free]) = none)
    (hmove : (made.put (beside ++ [free]) (.file content false)).move refusals workDir source path
      = (moved, .ok ())) : Puts workDir path content made moved := by
  have hwritten := Filled.of_put hbeside hfree content
  have hname := move_proper hmove
  rcases move_ok _ moved workDir source path hmove with
    ⟨reached, entry, hwalk, -, hapart, hold, hentry, rfl⟩
  rcases hwritten.walk_baseName workDir path reached hname hwalk with
    ⟨parent, hplace, hparent, before, hbefore, hsame⟩
  rw [hsource, entry?_put_self, Option.some.injEq] at hentry
  rw [hplace] at hold hsame hapart
  rw [hsource] at hapart
  have hfilled := Filled.of_moved hbeside hfree hparent hold hapart
  rw [← hsame] at hfilled
  rw [hsource, hplace, ← hentry, ← hsame]
  have hbare : made.kind? before.place ≠ some .directory := by
    rwa [hsame, ← hwritten.same _ hapart]
  exact ⟨before, hbefore, hbare, hfilled,
    fun now hnow => hfilled.walk_present workDir path before now hname hbefore hnow,
    fun hstart hlink => hfilled.walk_still workDir path before hname hstart hbare hlink hbefore rfl⟩

/-- Replacing a file puts it where the path leads, after directories were made along the
    path. -/
theorem replaceFile_ok (tree final : FileTree) (workDir : Place) (path : FilePath)
    (content : Option Bytes)
    (h : tree.replaceFile refusals workDir path content = (final, .ok ())) :
    ∃ made bytes, content = some bytes ∧ Raises workDir path.parent tree made
      ∧ Puts workDir path.text bytes made final := by
  have hraises := makeDirectories_raises tree refusals workDir path.parent
  rcases replaceFile_steps h with ⟨made, source, bytes, hbytes, hmade, hsource, hmove⟩
  rw [hmade] at hraises
  rcases temporaryFor_free made workDir path source hsource with
    ⟨parent, free, hplace, hparent, hfree, -⟩
  rw [hplace] at hmove
  exact ⟨made, bytes, hbytes, hraises,
    move_puts workDir source path.text hplace hparent hfree hmove⟩

end FileTree

end QueryDesk
