import QueryDesk.Proofs.Files.Replace

/-!
# What replacing a file leaves alone

Replacing a file changes the tree in more places than the one it is about.
Directories that are missing above the file are made first, and a temporary file
comes and goes. None of this touches anything that was there: directories are
made, and the temporary file is put, only where nothing was. So what is left is a
tree that extends the old one, and the file itself.

A file that could not be replaced leaves the directories, and no more as long as the
system removes what it is asked to. When it refuses to remove the temporary file, this
stays under its name in a place that was free, where no path leads that led somewhere
before.

When something was at the path already, no directory was missing, and then the
place the path led to is the only one that has changed at all. If that was a file,
every path leads where it led before.

## Main definitions

* `FileTree.Extends`: A tree with nothing but directories added.
* `FileTree.Grows`: A tree with directories and temporary files added.
* `FileTree.Refills`: A tree in which files may have other contents, too.
* `FileTree.Raises`: Directories made along a path.
* `FileTree.Filled`: A file that was put at a place, and nothing else changed.
* `FileTree.Leaves`: What is left of an attempt to put a file at a path.

## Theorems

* `walk_missing`: What a walk lacks is missing from a directory.
* `makeDirectories_raises`: Making directories adds directories along the path.
* `makeDirectories_extends`: Making directories adds directories.
* `Route.refill`, `Route.extend`: Routes lead on as they did.
* `replaceFile_error`: A file that could not be replaced.
* `replaceFile_keeps`: What was elsewhere is still there.
* `replaceFile_frame`: Nothing else changes when something was at the path.
-/

namespace QueryDesk

namespace FileTree

variable {tree : FileTree} {refusals : Refusals}

/-- What was at a place is there as it was, and where nothing was is nothing or a
    directory. -/
def Extends (tree made : FileTree) : Prop :=
  ∀ place, made.kind? place = tree.kind? place
    ∨ tree.kind? place = none ∧ made.kind? place = some .directory

namespace Extends

theorem refl (tree : FileTree) : tree.Extends tree := fun _ => Or.inl rfl

theorem of_kinds {tree made : FileTree} (h : ∀ place, made.kind? place = tree.kind? place) :
    tree.Extends made := fun place => Or.inl (h place)

theorem keeps {tree made : FileTree} (h : tree.Extends made) (place : Place)
    (hkind : tree.kind? place ≠ none) : made.kind? place = tree.kind? place := by
  rcases h place with hsame | ⟨hnone, _⟩
  · exact hsame
  · exact absurd hnone hkind

theorem trans {tree made more : FileTree} (h : tree.Extends made) (hmore : made.Extends more) :
    tree.Extends more := by
  intro place
  rcases hmore place with hsame | ⟨hnone, hdirectory⟩
  · rw [hsame]
    exact h place
  · rcases h place with hmade | ⟨hbefore, _⟩
    · rw [hnone] at hmade
      exact Or.inr ⟨hmade.symm, hdirectory⟩
    · exact Or.inr ⟨hbefore, hdirectory⟩

end Extends

/-! ## Files with other contents -/

/-- There is a file at the place. -/
def FileAt (tree : FileTree) (place : Place) : Prop :=
  ∃ content executable, tree.kind? place = some (.file content executable)

/-- There is a file at the place, under a name that a temporary file has. -/
def LeftAt (tree : FileTree) (place : Place) : Prop :=
  tree.FileAt place ∧ ∃ parent target marks, place = parent ++ [temporaryName target marks]

/-- What was at a place is there as it was. Where nothing was is nothing, a directory, or a
    temporary file that stayed behind. -/
def Grows (tree after : FileTree) : Prop :=
  ∀ place, after.kind? place = tree.kind? place
    ∨ tree.kind? place = none ∧ (after.kind? place = some .directory ∨ after.LeftAt place)

/-- A file may have another content, and where nothing was there may be a directory or a
    temporary file. The rest is as it was. -/
def Refills (tree after : FileTree) : Prop :=
  ∀ place, after.kind? place = tree.kind? place
    ∨ tree.kind? place = none ∧ (after.kind? place = some .directory ∨ after.LeftAt place)
    ∨ tree.FileAt place ∧ after.FileAt place

theorem Extends.grows {tree made : FileTree} (h : tree.Extends made) : tree.Grows made :=
  fun place => (h place).imp_right (And.imp_right Or.inl)

/-- What grows from a tree with directories added grows from the tree. -/
theorem Extends.grows_trans {tree made after : FileTree} (h : tree.Extends made)
    (hgrows : made.Grows after) : tree.Grows after := by
  intro place
  rcases hgrows place with hsame | ⟨hnone, hnew⟩
  · rw [hsame]
    exact (h place).imp_right (And.imp_right Or.inl)
  · rcases h place with hmade | ⟨hbefore, -⟩
    · exact Or.inr ⟨hmade.symm.trans hnone, hnew⟩
    · exact Or.inr ⟨hbefore, hnew⟩

namespace Grows

variable {after : FileTree}

theorem keeps (h : tree.Grows after) (place : Place) (hthere : tree.kind? place ≠ none) :
    after.kind? place = tree.kind? place := by
  rcases h place with hsame | ⟨hnone, -⟩
  · exact hsame
  · exact absurd hnone hthere

theorem refills (h : tree.Grows after) : tree.Refills after :=
  fun place => (h place).imp_right Or.inl

end Grows

theorem Extends.refills {tree made : FileTree} (h : tree.Extends made) : tree.Refills made :=
  h.grows.refills

namespace Refills

variable {after : FileTree} {place : Place}

theorem refl (tree : FileTree) : tree.Refills tree := fun _ => Or.inl rfl

theorem keeps (h : tree.Refills after) (hthere : tree.kind? place ≠ none)
    (hnoFile : ¬ tree.FileAt place) : after.kind? place = tree.kind? place := by
  rcases h place with hsame | ⟨hnone, -⟩ | ⟨hfile, -⟩
  · exact hsame
  · exact absurd hnone hthere
  · exact absurd hfile hnoFile

theorem link (h : tree.Refills after) {target : Text}
    (hlink : tree.kind? place = some (.link target)) :
    after.kind? place = some (.link target) := by
  rw [h.keeps (by rw [hlink]; exact Option.some_ne_none _), hlink]
  rintro ⟨content, executable, hfile⟩
  exact absurd (hlink.symm.trans hfile) (by simp only [Option.some.injEq, reduceCtorEq,
    not_false_eq_true])

theorem directory (h : tree.Refills after) (hplace : tree.kind? place = some .directory) :
    after.kind? place = some .directory := by
  rw [h.keeps (by rw [hplace]; exact Option.some_ne_none _), hplace]
  rintro ⟨content, executable, hfile⟩
  exact absurd (hplace.symm.trans hfile) (by simp only [Option.some.injEq, reduceCtorEq,
    not_false_eq_true])

theorem file (h : tree.Refills after) (hfile : tree.FileAt place) : after.FileAt place := by
  rcases h place with hsame | ⟨hnone, -⟩ | ⟨-, hafter⟩
  · rwa [FileAt, hsame]
  · rcases hfile with ⟨content, executable, hkind⟩
    exact absurd (hnone.symm.trans hkind) (Option.some_ne_none _).symm
  · exact hafter

/-- No link is new. -/
theorem not_new (h : tree.Refills after) {target : Text}
    (hlink : after.kind? place = some (.link target)) :
    tree.kind? place = some (.link target) := by
  have hnoFile : ¬ after.FileAt place := by
    rintro ⟨content, executable, hfile⟩
    exact absurd (hlink.symm.trans hfile) (by simp only [Option.some.injEq, reduceCtorEq,
      not_false_eq_true])
  rcases h place with hsame | ⟨-, hdirectory | hleft⟩ | ⟨-, hfile⟩
  · exact hsame.symm.trans hlink
  · exact absurd (hlink.symm.trans hdirectory) (by simp only [Option.some.injEq, reduceCtorEq,
      not_false_eq_true])
  · exact absurd hleft.1 hnoFile
  · exact absurd hfile hnoFile

/-- A file that is new is a temporary one that stayed behind. -/
theorem file_or_left (h : tree.Refills after) (hfile : after.FileAt place) :
    tree.FileAt place ∨ after.LeftAt place := by
  rcases h place with hsame | ⟨-, hdirectory | hleft⟩ | ⟨hold, -⟩
  · rw [FileAt, hsame] at hfile
    exact Or.inl hfile
  · rcases hfile with ⟨content, executable, hkind⟩
    exact absurd (hdirectory.symm.trans hkind) (by simp only [Option.some.injEq, reduceCtorEq,
      not_false_eq_true])
  · exact Or.inr hleft
  · exact Or.inl hold

end Refills

/-! ## What a walk lacks -/

/-- What a walk came to is there: a name it lacks is missing from a directory, and
    a link it meets was met from a way of the tree. -/
def Advance.Sound (tree : FileTree) : Advance → Prop
  | .arrived _ => True
  | .lacks parent name => tree.kind? parent = some .directory ∧ tree.kind? (parent ++ [name]) = none
  | .meets above _ _ => Way.Leads tree above
  | .stopped _ => True

theorem advance_sound (last : LastName) (way : Way) (names : List Text) (hleads : way.Leads tree)
    (hlast : last ≠ .written) : (tree.advance last way names).Sound tree := by
  induction names generalizing way with
  | nil => trivial
  | cons name rest ih =>
      by_cases hinside : tree.kind? way.place = some .directory
      · rw [advance_inside hleads hinside hlast]
        split
        · exact ih way hleads
        split
        · exact ih way.tail hleads.tail
        split
        · trivial
        split
        · next hnone =>
            split
            · exact ⟨hinside, by rw [kind?, hnone]; rfl⟩
            · trivial
        · split
          · trivial
          · exact hleads
        · next entry _ hfound => exact ih _ ⟨hfound, hleads⟩
      · rw [advance_outside hleads hinside]
        trivial

theorem walkNames_missing (last : LastName) (links : Nat) (way : Way) (names : List Text)
    (parent : Place) (name : Text) (hleads : way.Leads tree) (hlast : last ≠ .written)
    (h : tree.walkNames last links way names = .ok (.missing parent name)) :
    tree.kind? parent = some .directory ∧ tree.kind? (parent ++ [name]) = none := by
  induction links generalizing way names with
  | zero => exact absurd h (by simp only [walkNames, reduceCtorEq, not_false_eq_true])
  | succ links ih =>
      have hsound := advance_sound last way names hleads hlast
      rw [walkNames] at h
      cases hadvance : tree.advance last way names with
      | arrived place =>
          rw [hadvance] at h
          exact absurd h (by simp only [Except.ok.injEq, reduceCtorEq, not_false_eq_true])
      | lacks above missing =>
          rw [hadvance] at h hsound
          rcases Reached.missing.inj (Except.ok.inj h) with ⟨rfl, rfl⟩
          exact hsound
      | stopped cause =>
          rw [hadvance] at h
          exact absurd h (by simp only [reduceCtorEq, not_false_eq_true])
      | meets above target rest =>
          rw [hadvance] at h hsound
          refine ih _ _ ?_ h
          split
          · trivial
          · exact hsound

/-- What a walk lacks is missing from a directory that is there. -/
theorem walk_missing (workDir : Place) (last : LastName) (path : Text) (parent : Place)
    (name : Text) (hlast : last ≠ .written)
    (h : tree.walk workDir last path = .ok (.missing parent name)) :
    tree.kind? parent = some .directory ∧ tree.kind? (parent ++ [name]) = none :=
  walkNames_missing last _ _ _ parent name (tree.startWay_leads workDir path) hlast
    ((walk_eq_ok_iff workDir last path _).mp h).2

/-! ## Making directories -/

/-- Directories were made along a path, one after the other: each where the path, or a part
    of it that begins it, lacked its last name. -/
inductive Raises (workDir : Place) (path : FilePath) : FileTree → FileTree → Prop
  | refl (tree : FileTree) : Raises workDir path tree tree
  | step {tree made : FileTree} {above : List Text} {parent : Place} {name : Text}
      (before : Raises workDir path tree made) (habove : above <+: path.names)
      (hwalk : made.walk workDir .kept (Path.write path.slashes above)
        = .ok (.missing parent name)) :
      Raises workDir path tree (made.put (parent ++ [name]) (.directory []))

namespace Raises

variable {workDir : Place} {path : FilePath} {made more : FileTree}

theorem trans (h : Raises workDir path tree made) (hmore : Raises workDir path made more) :
    Raises workDir path tree more := by
  induction hmore with
  | refl => exact h
  | step _ habove hwalk ih => exact .step ih habove hwalk

/-- What is made along the beginning of a path is made along the path. -/
theorem longer {names : List Text} (h : Raises workDir ⟨path.slashes, names⟩ tree made)
    (hnames : names <+: path.names) : Raises workDir path tree made := by
  induction h with
  | refl => exact .refl tree
  | step _ habove hwalk ih => exact .step ih (habove.trans hnames) hwalk

/-- A directory that is made is new, and everything else stays as it was. -/
theorem adds (h : Raises workDir path tree made) : tree.Extends made := by
  induction h with
  | refl => exact .refl tree
  | @step made above parent name _ _ hwalk ih =>
      refine ih.trans fun place => ?_
      rcases walk_missing workDir .kept _ parent name (by decide) hwalk with ⟨hparent, hnone⟩
      rw [kind?_put made (.directory []) parent place name hparent
        (by rw [hnone]; exact (Option.some_ne_none _).symm) rfl]
      by_cases hplace : place = parent ++ [name]
      · rw [if_pos hplace, hplace]
        exact Or.inr ⟨hnone, rfl⟩
      · rw [if_neg hplace]
        exact Or.inl rfl

end Raises

theorem makeDirectory_raises (tree : FileTree) (refusals : Refusals) (workDir : Place)
    (path : FilePath) :
    Raises workDir path tree (tree.makeDirectory refusals workDir path.text).1 := by
  unfold makeDirectory
  split
  · exact .refl tree
  · exact .refl tree
  next parent name hwalk =>
  split
  · exact .refl tree
  · exact .step (.refl tree) (List.prefix_refl _) hwalk

-- Making what is missing of a directory makes directories along its names.
theorem makeNames_raises (refusals : Refusals) (workDir : Place) (slashes room : Nat)
    (names : List Text) (tree : FileTree) :
    Raises workDir ⟨slashes, names.reverse⟩ tree
      (makeNames refusals workDir slashes room names tree).1 := by
  induction room generalizing names tree with
  | zero => exact .refl tree
  | succ room ih =>
      -- The directory is tried once or twice, and between the two those above it are made.
      have hmake := fun tree : FileTree =>
        makeDirectory_raises tree refusals workDir ⟨slashes, names.reverse⟩
      simp only [FilePath.text] at hmake
      have hfirst := hmake tree
      unfold makeNames
      simp only
      split
      · next made heq =>
          rw [heq] at hfirst
          exact hfirst
      · next made path target heq =>
          rw [heq] at hfirst
          split
          · exact hfirst
          next _ name above =>
          have habove : Raises workDir ⟨slashes, (name :: above).reverse⟩ made
              (makeNames refusals workDir slashes room above made).1 :=
            (ih above made).longer ⟨[name], List.reverse_cons.symm⟩
          split
          · next raised fault hraised =>
              rw [hraised] at habove
              exact hfirst.trans habove
          next raised hraised =>
          rw [hraised] at habove
          have hsecond := hmake raised
          split
          · next last heq =>
              rw [heq] at hsecond
              exact (hfirst.trans habove).trans hsecond
          · next last _ _ heq =>
              rw [heq] at hsecond
              exact (hfirst.trans habove).trans hsecond
          · next last _ _ heq =>
              rw [heq] at hsecond
              exact (hfirst.trans habove).trans hsecond
      · next made fault _ heq =>
          rw [heq] at hfirst
          exact hfirst

/-- Making directories adds directories along the path. -/
theorem makeDirectories_raises (tree : FileTree) (refusals : Refusals) (workDir : Place)
    (path : FilePath) :
    Raises workDir path tree (tree.makeDirectories refusals workDir path).1 := by
  have hraises := makeNames_raises refusals workDir path.slashes maxMissing path.names.reverse tree
  rwa [List.reverse_reverse] at hraises

/-- Making directories adds directories and nothing else. -/
theorem makeDirectories_extends (tree : FileTree) (refusals : Refusals) (workDir : Place)
    (path : FilePath) :
    tree.Extends (tree.makeDirectories refusals workDir path).1 :=
  (makeDirectories_raises tree refusals workDir path).adds

/-! ## Routes in a tree that was extended -/

/-- A route leads on where nothing but the content of files is changed, and where something
    is only added in free places. -/
theorem Route.refill {after : FileTree} {place goal : Place} {names : List Text} {links : Nat}
    (h : tree.Route place names links goal) (hrefills : tree.Refills after) :
    after.Route place names links goal := by
  induction h with
  | arrived place => exact .arrived place
  | step place name names stride links goal hstride _ ih =>
      refine .step place name names stride links goal ?_ ih
      refine stride?_transfer hstride
        (hrefills.directory (stride?_directory place name stride hstride))
        (fun _ => hrefills.link) fun kind _ hkind hnolink => ?_
      cases kind with
      | link target => exact absurd rfl (hnolink target)
      | file content executable =>
          rcases hrefills.file ⟨content, executable, hkind⟩ with ⟨other, runs, hafter⟩
          exact ⟨_, hafter, fun _ => by simp only [ne_eq, reduceCtorEq, not_false_eq_true]⟩
      | directory => exact ⟨_, hrefills.directory hkind, hnolink⟩

/-- A route leads on where only directories were added. -/
theorem Route.extend {made : FileTree} {place goal : Place} {names : List Text} {links : Nat}
    (h : tree.Route place names links goal) (hextends : tree.Extends made) :
    made.Route place names links goal :=
  h.refill hextends.refills

theorem readBytes_grows {after : FileTree} (workDir : Place) (path : Text) (bytes : Bytes)
    (hnormal : Path.Normal path) (hgrows : tree.Grows after)
    (h : tree.readBytes workDir path = .ok bytes) : after.readBytes workDir path = .ok bytes := by
  rcases hnormal with ⟨slashes, names, hslashes, hnames, rfl⟩
  rcases (readBytes_eq_ok_iff workDir slashes names bytes (by omega) hnames).mp h with
    ⟨hadmitted, used, goal, executable, hused, hroute, hkind⟩
  refine (readBytes_eq_ok_iff workDir slashes names bytes (by omega) hnames).mpr
    ⟨hadmitted, used, goal, executable, hused, hroute.refill hgrows.refills, ?_⟩
  rw [hgrows.keeps goal (by rw [hkind]; exact Option.some_ne_none _), hkind]

/-! ## What a temporary file leaves -/

/-- A file was put at a place, over what was there, and nothing else has changed. -/
structure Filled (tree filled : FileTree) (place : Place) (content : Bytes) : Prop where
  file : filled.kind? place = some (.file content false)
  same : ∀ other, other ≠ place → filled.kind? other = tree.kind? other

theorem Filled.of_put {parent : Place} {name : Text} (hparent : tree.kind? parent = some .directory)
    (hfree : tree.kind? (parent ++ [name]) = none) (content : Bytes) :
    Filled tree (tree.put (parent ++ [name]) (.file content false)) (parent ++ [name])
      content := by
  have hkind := fun place => kind?_put tree (.file content false) parent place name hparent
    (by rw [hfree]; exact (Option.some_ne_none _).symm) rfl
  exact ⟨(hkind _).trans (if_pos rfl), fun other hother => (hkind other).trans (if_neg hother)⟩

/-- What is left of an attempt to put a content at a path: nothing, or else the temporary file
    for the path with a beginning of the content, because the system refused to remove it. -/
inductive Leaves (refusals : Refusals) (workDir : Place) (path : FilePath) (content : Bytes)
    (tree final : FileTree) : Prop
  | nothing (hkinds : ∀ place, final.kind? place = tree.kind? place)
  | temporary (source : Temporary) (part : Bytes) (cause : FileCause)
      (hsource : tree.temporaryFor refusals workDir path = .ok source)
      (hfree : tree.kind? source.place = none) (hfilled : Filled tree final source.place part)
      (hpart : part <+: content)
      (hrefused : refusals.cause? final (.remove source.place) = some cause)

namespace Leaves

variable {workDir : Place} {path : FilePath} {content : Bytes} {made final : FileTree}

theorem grows (h : Leaves refusals workDir path content made final) : made.Grows final := by
  cases h with
  | nothing hkinds => exact fun place => Or.inl (hkinds place)
  | temporary source part cause hsource hfree hfilled =>
      intro place
      by_cases hplace : place = source.place
      · rcases temporaryFor_free made workDir path source hsource with
          ⟨parent, name, hname, -, -, marks, rfl⟩
        rw [hplace]
        exact Or.inr ⟨hfree, Or.inr ⟨⟨part, false, hfilled.file⟩, parent, _, marks, hname⟩⟩
      · exact Or.inl (hfilled.same place hplace)

/-- When the system removes what it is asked to, nothing is left. -/
theorem nothing_left (h : Leaves refusals workDir path content made final)
    (hremoves : refusals.Admits Attempt.Removes) (place : Place) :
    final.kind? place = made.kind? place := by
  cases h with
  | nothing hkinds => exact hkinds place
  | temporary source part cause hsource hfree hfilled hpart hrefused =>
      exact absurd ((hremoves final (.remove source.place) trivial).symm.trans hrefused)
        (Option.some_ne_none cause).symm

end Leaves

/-- A temporary file that is taken away again leaves nothing, unless the system refuses. -/
theorem cleanUp_leaves (made : FileTree) (refusals : Refusals) (workDir : Place) (path : FilePath)
    (source : Temporary) (part content : Bytes) (hpart : part <+: content)
    (hsource : made.temporaryFor refusals workDir path = .ok source) :
    Leaves refusals workDir path content made
      ((made.put source.place (.file part false)).cleanUp refusals source) := by
  rcases temporaryFor_free made workDir path source hsource with
    ⟨parent, name, hplace, hparent, hfree, -⟩
  have hput := Filled.of_put hparent hfree part
  rw [← hplace] at hfree hput
  unfold cleanUp
  split
  · next cause hrefused => exact .temporary source part cause hsource hfree hput hpart hrefused
  · refine .nothing fun place => ?_
    have hremove := kind?_remove (made.put source.place (.file part false)) parent place name
      (by rw [hput.same _ (by rw [hplace]; exact Place.ne_concat parent name), hparent])
      (by rw [← hplace, hput.file]
          simp only [ne_eq, Option.some.injEq, reduceCtorEq, not_false_eq_true])
    rw [← hplace] at hremove
    rw [hremove]
    by_cases heq : place = source.place
    · rw [if_pos heq, heq, hfree]
    · rw [if_neg heq, hput.same place heq]

/-! ## Replacing a file -/

theorem move_error (tree moved : FileTree) (workDir : Place) (source : Temporary) (path : Text)
    (fault : FileFault) (h : tree.move refusals workDir source path = (moved, .error fault)) :
    moved = tree := by
  unfold move at h
  simp only at h
  split at h
  · exact (Prod.mk.inj h).1.symm
  · exact (Prod.mk.inj h).1.symm
  split at h
  · exact (Prod.mk.inj h).1.symm
  split at h
  · exact (Prod.mk.inj h).1.symm
  split at h
  · exact (Prod.mk.inj h).1.symm
  split at h
  · exact (Prod.mk.inj h).1.symm
  · exact absurd h.symm failed_ne_ok
  · exact (Prod.mk.inj h).1.symm

/-- A temporary file that could not be filled holds a beginning of its bytes. -/
theorem fill_error (tree filled : FileTree) (source : Temporary) (content : Option Bytes)
    (fault : WriteFault) (h : tree.fill refusals source content = (filled, .error fault)) :
    ∃ part, part <+: content.getD [] ∧ filled = tree.put source.place (.file part false) := by
  unfold fill at h
  split at h
  · exact ⟨[], List.nil_prefix, (Prod.mk.inj h).1.symm⟩
  next bytes =>
  unfold fillFile at h
  simp only at h
  split at h
  · exact ⟨_, List.take_prefix _ _, (Prod.mk.inj h).1.symm⟩
  · exact absurd h.symm failed_ne_ok

/-- A file that could not be replaced leaves the tree with the directories that were made
    above it, and with its temporary file if the system refused to remove that. -/
theorem replaceFile_error (tree final : FileTree) (workDir : Place) (path : FilePath)
    (content : Option Bytes) (fault : WriteFault)
    (h : tree.replaceFile refusals workDir path content = (final, .error fault)) :
    ∃ made, Raises workDir path.parent tree made
      ∧ Leaves refusals workDir path (content.getD []) made final := by
  have hmade := makeDirectories_raises tree refusals workDir path.parent
  unfold replaceFile at h
  split at h
  · next made _ heq =>
      rw [heq] at hmade
      rw [← (Prod.mk.inj h).1]
      exact ⟨made, hmade, .nothing fun _ => rfl⟩
  next made heq =>
  rw [heq] at hmade
  refine ⟨made, hmade, ?_⟩
  split at h
  · rw [← (Prod.mk.inj h).1]
    exact .nothing fun _ => rfl
  next source hsource =>
  split at h
  · next filled _ hfill =>
      rcases fill_error made filled source content _ hfill with ⟨part, hpart, rfl⟩
      rw [← (Prod.mk.inj h).1]
      exact cleanUp_leaves made refusals workDir path source part _ hpart hsource
  next filled hfill =>
  rcases fill_ok made filled source content hfill with ⟨bytes, rfl, rfl⟩
  split at h
  · exact absurd h.symm failed_ne_ok
  · next moved _ hmove =>
      rw [← (Prod.mk.inj h).1, move_error _ _ _ _ _ _ hmove]
      exact cleanUp_leaves made refusals workDir path source bytes _ (List.prefix_refl _) hsource

/-- What was at any place but the one the path leads to is still there after a file
    was replaced. -/
theorem replaceFile_keeps (tree final : FileTree) (workDir : Place) (slashes : Nat)
    (names : List Text) (content : Bytes) (hslashes : slashes = 1 ∨ slashes = 2)
    (hnames : ∀ name ∈ names, Path.Proper name)
    (h : tree.replaceFile refusals workDir ⟨slashes, names⟩ (some content) = (final, .ok ()))
    (place : Place) (hthere : tree.kind? place ≠ none)
    (hapart : tree.walk workDir .kept (Path.write slashes names) ≠ .ok (.present place)) :
    final.kind? place = tree.kind? place := by
  rcases replaceFile_replaced tree final workDir slashes names content hslashes hnames h with
    ⟨made, written, front, name, parent, temporary, rfl, hmade, hadmitted, hreplaced⟩
  have hname := hnames name (List.mem_append_right _ (List.mem_singleton_self name))
  have hfront : ∀ n ∈ front, Path.Proper n := fun n hn => hnames n (List.mem_append_left _ hn)
  have hextends := makeDirectories_extends tree refusals workDir ⟨slashes, front⟩
  rw [hmade] at hextends
  have hsame : made.kind? place = tree.kind? place := hextends.keeps place hthere
  have htemporary : place ≠ temporary := by
    intro heq
    rw [heq] at hthere hsame
    rw [hreplaced.free] at hsame
    exact hthere hsame.symm
  have htarget : place ≠ parent ++ [name] := by
    intro heq
    rw [heq] at hthere hsame hapart
    rcases hreplaced.nothing_made workDir slashes hslashes hfront hmade
      (by rw [hsame]; exact hthere) with ⟨rfl, used, hused, hroute⟩
    refine hapart ((walk_kept_eq_ok_iff workDir slashes front name _ (by omega) hfront hname).mpr
      ⟨hadmitted, used, parent, hused, hroute, ?_, hreplaced.short, ?_⟩)
    · exact hreplaced.made_directory
    · cases hkind : made.kind? (parent ++ [name]) with
      | none => exact absurd hkind hthere
      | some kind => rfl
  rw [hreplaced.same_final place (by rw [not_or]; exact ⟨htarget, htemporary⟩),
    hreplaced.deadEnds_written.same place htemporary, hsame]

/-- When something was at the path already, it is replaced by the file and nothing
    else changes. -/
theorem replaceFile_frame (tree final : FileTree) (workDir : Place) (slashes : Nat)
    (names : List Text) (content : Bytes) (goal : Place) (hslashes : slashes = 1 ∨ slashes = 2)
    (hnames : ∀ name ∈ names, Path.Proper name)
    (hwalk : tree.walk workDir .kept (Path.write slashes names) = .ok (.present goal))
    (h : tree.replaceFile refusals workDir ⟨slashes, names⟩ (some content) = (final, .ok ())) :
    final.kind? goal = some (.file content false)
      ∧ ∀ place, place ≠ goal → final.kind? place = tree.kind? place := by
  rcases replaceFile_replaced tree final workDir slashes names content hslashes hnames h with
    ⟨made, written, front, name, parent, temporary, rfl, hmade, hadmitted, hreplaced⟩
  have hname := hnames name (List.mem_append_right _ (List.mem_singleton_self name))
  have hfront : ∀ n ∈ front, Path.Proper n := fun n hn => hnames n (List.mem_append_left _ hn)
  have hextends := makeDirectories_extends tree refusals workDir ⟨slashes, front⟩
  rw [hmade] at hextends
  rcases (walk_kept_eq_ok_iff workDir slashes front name _ (by omega) hfront hname).mp hwalk with
    ⟨_, used, above, _, hroute, _, _, hreached⟩
  have hgoal : goal = above ++ [name] ∧ tree.kind? (above ++ [name]) ≠ none := by
    cases hkind : tree.kind? (above ++ [name]) with
    | none =>
        rw [hkind] at hreached
        exact absurd hreached (by simp only [reduceCtorEq, not_false_eq_true])
    | some kind =>
        rw [hkind] at hreached
        exact ⟨Reached.present.inj hreached, Option.some_ne_none kind⟩
  -- The names before the last one lead to the same directory before and after directories are made.
  have hsameParent : parent = above := by
    rcases hreplaced.route_made with ⟨_, _, hbefore⟩
    exact (hbefore.deterministic (hroute.extend hextends)).2
  subst hsameParent
  have hthere : made.kind? (parent ++ [name]) ≠ none := by
    have hsame : made.kind? (parent ++ [name]) = _ := hextends.keeps _ hgoal.2
    rw [hsame]
    exact hgoal.2
  rcases hreplaced.nothing_made workDir slashes hslashes hfront hmade hthere with ⟨rfl, _⟩
  rw [hgoal.1]
  refine ⟨hreplaced.final_file, fun place hplace => ?_⟩
  by_cases htemporary : place = temporary
  · rw [htemporary, hreplaced.final_temporary, hreplaced.free]
  · rw [hreplaced.same_final place (by rw [not_or]; exact ⟨hplace, htemporary⟩),
      hreplaced.deadEnds_written.same place htemporary]

end FileTree

end QueryDesk
