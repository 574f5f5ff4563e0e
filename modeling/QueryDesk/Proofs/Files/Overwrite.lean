import QueryDesk.Proofs.Files.Direct

/-!
# Reading back what was written in place

A file that is written in place is found again by the path it was written to. The
walk that leads there is not the same walk: nothing was there before when the file
is new, and a walk that is about to write stops at names after which a reader goes
on. But a walk that gets through to a place to write at is one that follows links,
and the only place that it finds changed afterwards is the one it ends at.

## Main definitions

* `FileTree.Written`: A tree with a file at a place where there was one or nothing.

## Theorems

* `walk_written`: A walk to a place to write at is a walk that follows links.
* `Written.route`: The walk leads to the file that was written.
* `overwrite_written`: Writing in place puts a file where the walk came to.
* `find_overwrite`: What is found at a path after it was written to.
* `kind?_overwrite`: Writing in place keeps directories.
-/

namespace QueryDesk

namespace FileTree

variable {tree other : FileTree} {refusals : Refusals}

/-! ## Walks to a place to write at -/

theorem LastName.followed_ne_written : LastName.followed ≠ .written :=
  LastName.noConfusion

-- A walk that is about to write goes on as one that follows links, or stops.
theorem advance_written (way : Way) (names : List Text) :
    tree.advance .written way names = tree.advance .followed way names
      ∨ ∃ cause, tree.advance .written way names = .stopped cause := by
  induction names generalizing way with
  | nil => exact Or.inl rfl
  | cons name rest ih =>
      rw [advance, advance]
      cases (way.head?.map (·.2)).getD tree.root with
      | file content executable => exact Or.inl rfl
      | link target => exact Or.inl rfl
      | directory entries =>
          have hfollowed : (LastName.followed == .written && endsInSlash rest) = false := rfl
          have hlast : ∀ last : LastName, last ≠ .kept → (rest.isEmpty && last == .kept) = false :=
            fun last h => by rw [beq_eq_false_iff_ne.mpr h, Bool.and_false]
          simp only [hfollowed, hlast .written (by decide), hlast .followed (by decide),
            Bool.false_eq_true, if_false]
          split
          · exact ih way
          split
          · exact ih way.tail
          split
          · exact Or.inr ⟨_, rfl⟩
          split
          · exact Or.inl rfl
          split
          · exact Or.inl rfl
          · exact Or.inl rfl
          · exact ih _

theorem walkNames_written (links : Nat) (way : Way) (names : List Text) (reached : Reached)
    (h : tree.walkNames .written links way names = .ok reached) :
    tree.walkNames .followed links way names = .ok reached := by
  induction links generalizing way names with
  | zero => exact absurd h (by simp only [walkNames, reduceCtorEq, not_false_eq_true])
  | succ links ih =>
      rw [walkNames] at h ⊢
      have hadvanced : tree.advance .written way names = tree.advance .followed way names
          ∨ ∃ cause, tree.advance .written way names = .stopped cause := advance_written way names
      rcases hadvanced with hsame | ⟨cause, hstopped⟩
      · rw [hsame] at h
        cases hadvance : tree.advance .followed way names with
        | arrived place => rwa [hadvance] at h
        | lacks parent name => rwa [hadvance] at h
        | stopped cause => rwa [hadvance] at h
        | meets above target rest =>
            rw [hadvance] at h
            exact ih _ _ h
      · rw [hstopped] at h
        exact absurd h (by simp only [reduceCtorEq, not_false_eq_true])

/-- A walk to a place to write at is a walk that follows links. -/
theorem walk_written (workDir : Place) (path : Text) (reached : Reached)
    (h : tree.walk workDir .written path = .ok reached) :
    tree.walk workDir .followed path = .ok reached := by
  rw [walk_eq_ok_iff] at h ⊢
  exact ⟨h.1, walkNames_written _ _ _ _ h.2⟩

/-! ## The tree with the file -/

/-- The other tree has a file at the goal, where there was one before or nothing,
    and is the same everywhere else. -/
structure Written (tree other : FileTree) (goal : Place) (content : Bytes) : Prop where
  same : ∀ place, place ≠ goal → other.kind? place = tree.kind? place
  file : ∃ executable, other.kind? goal = some (.file content executable)
  before : tree.kind? goal = none
    ∨ ∃ bytes executable, tree.kind? goal = some (.file bytes executable)

namespace Written

variable {goal : Place} {content : Bytes}

theorem directory (h : Written tree other goal content) {place : Place}
    (hkind : tree.kind? place = some .directory) : other.kind? place = some .directory := by
  rw [h.same place, hkind]
  rintro rfl
  rcases h.before with hnone | ⟨_, _, hfile⟩
  · exact absurd (hkind.symm.trans hnone) (Option.some_ne_none _)
  · exact absurd (hkind.symm.trans hfile)
      (by simp only [Option.some.injEq, reduceCtorEq, not_false_eq_true])

-- A name that leads somewhere still leads there.
theorem stride? (h : Written tree other goal content) {place : Place} {name : Text}
    {stride : Stride} (hstride : tree.stride? place name = some stride) :
    other.stride? place name = some stride := by
  refine stride?_transfer hstride (h.directory (stride?_directory place name stride hstride))
    (fun target htarget => ?_) fun kind _ hkind hnolink => ?_
  · -- Only a file can have been where the file was written.
    rw [h.same _ ?_, htarget]
    intro hgoal
    rw [hgoal] at htarget
    rcases h.before with hnone | ⟨_, _, hfound⟩
    · exact absurd (htarget.symm.trans hnone) (Option.some_ne_none _)
    · exact absurd (htarget.symm.trans hfound)
        (by simp only [Option.some.injEq, reduceCtorEq, not_false_eq_true])
  · by_cases hgoal : place ++ [name] = goal
    · rcases h.file with ⟨executable, hfile⟩
      exact ⟨_, hgoal ▸ hfile, fun _ => by simp only [ne_eq, reduceCtorEq, not_false_eq_true]⟩
    · exact ⟨kind, (h.same _ hgoal).trans hkind, hnolink⟩

-- The name that was missing leads to the file.
theorem stride?_missing (h : Written tree other goal content) {way : Way} (hleads : way.Leads tree)
    {links : Nat} {name : Text} {parent : Place} {missing : Text}
    (hgoal : parent ++ [missing] = goal)
    (hstride : tree.stride? way.place name = none)
    (hwalk : tree.walkNames .followed (links + 1) way [name] = .ok (.missing parent missing)) :
    way.place ++ [name] = goal
      ∧ other.stride? way.place name = some ⟨0, goal, []⟩ := by
  have hend : Reached.missing way.place name = .missing parent missing := by
    rcases walkNames_stuck hleads links [] hstride LastName.followed_ne_written with
      ⟨cause, hstop⟩ | ⟨_, hmissing⟩
    · rw [hstop] at hwalk
      exact absurd hwalk (by simp only [reduceCtorEq, not_false_eq_true])
    · exact Except.ok.inj (hmissing.symm.trans hwalk)
  rcases Reached.missing.inj hend with ⟨rfl, rfl⟩
  refine ⟨hgoal, ?_⟩
  rw [walkNames] at hwalk
  by_cases hinside : tree.kind? way.place = some .directory
  · rw [advance_inside hleads hinside (by decide)] at hwalk
    rw [FileTree.stride?, hinside] at hstride
    rw [FileTree.stride?, h.directory hinside]
    simp only at hstride ⊢
    split at hstride
    · exact absurd hstride (Option.some_ne_none _)
    next hempty =>
    split at hstride
    · exact absurd hstride (Option.some_ne_none _)
    next hup =>
    rw [if_neg hempty, if_neg hup] at hwalk ⊢
    by_cases hlong : maxNameBytes < (Utf8.encode name).length
    · rw [if_pos hlong] at hwalk
      exact absurd hwalk (by simp only [reduceCtorEq, not_false_eq_true])
    rcases h.file with ⟨executable, hfile⟩
    rw [if_neg hlong, hgoal, hfile]
  · rw [advance_outside hleads hinside] at hwalk
    exact absurd hwalk (by simp only [reduceCtorEq, not_false_eq_true])

/-- A walk that came to the goal leads to the file there. -/
theorem route (h : Written tree other goal content) (links : Nat) (way : Way) (names : List Text)
    (reached : Reached) (hleads : way.Leads tree) (hgoal : reached.place = goal)
    (hwalk : tree.walkNames .followed links way names = .ok reached) :
    ∃ used, used < links ∧ other.Route way.place names used goal := by
  revert hwalk
  refine walkNames_induction [] LastName.followed_ne_written
    (fun hkept => absurd hkept (by decide)) (P := fun links way names =>
      tree.walkNames .followed links way names = .ok reached →
        ∃ used, used < links ∧ other.Route way.place names used goal)
    ?_ ?_ ?_ ?_ links names hleads
  · exact fun _ _ h => absurd h (by simp only [walkNames, reduceCtorEq, not_false_eq_true])
  · intro links way _ hwalk
    rw [walkNames, advance] at hwalk
    rw [← Except.ok.inj hwalk] at hgoal
    exact ⟨0, Nat.succ_pos links, hgoal ▸ .arrived way.place⟩
  · intro links way name rest hleads hstride hwalk
    rcases walkNames_stuck hleads links rest hstride LastName.followed_ne_written with
      ⟨cause, hstop⟩ | ⟨rfl, hmissing⟩
    · exact absurd (hstop.symm.trans hwalk) (by simp only [reduceCtorEq, not_false_eq_true])
    · rw [← Except.ok.inj (hmissing.symm.trans hwalk)] at hgoal
      have hfound := (h.stride?_missing hleads hgoal hstride hmissing).2
      exact ⟨0, Nat.succ_pos links, .step _ name [] _ 0 goal hfound (.arrived goal)⟩
  · intro links way name rest stride further hstride hplace hstep ih hwalk
    rw [List.append_nil, List.append_nil] at hstep
    rcases ih (hstep.symm.trans hwalk) with ⟨used, hused, hroute⟩
    rw [hplace] at hroute
    exact ⟨stride.links + used, by omega,
      .step way.place name rest stride used goal (h.stride? hstride) hroute⟩

end Written

/-! ## Writing in place -/

theorem written_put (new : Bytes) (executable : Bool) (parent : Place) (name : Text)
    (hparent : tree.kind? parent = some .directory)
    (hbefore : tree.kind? (parent ++ [name]) = none
      ∨ ∃ bytes executable, tree.kind? (parent ++ [name]) = some (.file bytes executable)) :
    Written tree (tree.put (parent ++ [name]) (.file new executable)) (parent ++ [name]) new := by
  have hold : tree.kind? (parent ++ [name]) ≠ some .directory := by
    rcases hbefore with hnone | ⟨_, _, hfile⟩
    · rw [hnone]
      exact (Option.some_ne_none _).symm
    · rw [hfile]
      simp only [ne_eq, Option.some.injEq, reduceCtorEq, not_false_eq_true]
  have hput := fun place => kind?_put tree (.file new executable) parent place name hparent hold rfl
  refine ⟨fun place hplace => ?_, ⟨executable, ?_⟩, hbefore⟩
  · rw [hput, if_neg hplace]
  · rw [hput, if_pos rfl]
    rfl

-- A file that could be opened and filled has all of its bytes.
theorem writeFile_ok {attempt : Attempt} {place : Place} {executable : Bool} {path : Text}
    {content : Bytes}
    (h : tree.writeFile refusals attempt place executable path content = (other, .ok ())) :
    other = tree.put place (.file content executable) := by
  unfold writeFile at h
  split at h
  · exact absurd h failed_ne_ok
  · exact fillFile_ok tree other place executable content h

/-- A file that was written in place is where a walk that follows links came to. -/
theorem overwrite_written {workDir : Place} {path : Text} {content : Bytes}
    (h : tree.overwrite refusals workDir path content = (other, .ok ())) :
    ∃ reached, tree.walk workDir .followed path = .ok reached
      ∧ Written tree other reached.place content := by
  unfold overwrite at h
  split at h
  · exact absurd h failed_ne_ok
  · next parent name hwalk =>
      have hfollowed := walk_written workDir path _ hwalk
      rcases walk_missing workDir .followed path parent name LastName.followed_ne_written
        hfollowed with ⟨hparent, hnone⟩
      refine ⟨_, hfollowed, ?_⟩
      rw [writeFile_ok h]
      exact written_put content false parent name hparent (Or.inl hnone)
  · next place hwalk =>
      have hfollowed := walk_written workDir path _ hwalk
      split at h
      · next bytes executable hentry =>
          have hkind : tree.kind? place = some (.file bytes executable) := by
            rw [kind?, hentry]
            rfl
          refine ⟨_, hfollowed, ?_⟩
          rw [writeFile_ok h]
          rcases List.eq_nil_or_concat place with rfl | ⟨parent, name, hconcat⟩
          · exact absurd (hkind.symm.trans tree.kind?_root)
              (by simp only [Option.some.injEq, reduceCtorEq, not_false_eq_true])
          · rw [List.concat_eq_append] at hconcat
            subst hconcat
            exact written_put content executable parent name
              (tree.kind?_above parent name (by rw [hkind]; exact Option.some_ne_none _))
              (Or.inr ⟨bytes, executable, hkind⟩)
      · exact absurd h failed_ne_ok

/-- What is read from a path after it was written to is what was written. -/
theorem find_overwrite {workDir : Place} {path : Text} {content : Bytes}
    (hstart : tree.kind? (startOf workDir path) = some .directory)
    (h : tree.overwrite refusals workDir path content = (other, .ok ())) :
    ∃ place executable, other.find workDir path = .ok (place, .file content executable) := by
  rcases overwrite_written h with ⟨reached, hwalk, hwritten⟩
  rcases (walk_eq_ok_iff workDir _ path _).mp hwalk with ⟨hadmitted, hnames⟩
  rcases hwritten.route (maxLinks + 1) _ _ reached (tree.startWay_leads workDir path) rfl hnames
    with ⟨used, hused, hroute⟩
  rw [startWay_place workDir path hstart] at hroute
  rcases hwritten.file with ⟨executable, hfile⟩
  refine ⟨reached.place, executable, (find_eq_ok_iff workDir path _ _).mpr ⟨?_, ?_⟩⟩
  · exact walk_of_route workDir path _ used (hwritten.directory hstart) hadmitted
      (Nat.le_of_lt_succ hused) hroute
  · exact entry?_eq_file other _ content executable hfile

/-- Directories stay when a file is written in place. -/
theorem kind?_overwrite {workDir : Place} {path : Text} {content : Bytes} {place : Place}
    (hplace : tree.kind? place = some .directory)
    (h : tree.overwrite refusals workDir path content = (other, .ok ())) :
    other.kind? place = some .directory := by
  rcases overwrite_written h with ⟨_, _, hwritten⟩
  exact hwritten.directory hplace

end FileTree

end QueryDesk
