import QueryDesk.Proofs.Files.Walk

/-!
# Where a replaced file is found again

A file that is replaced is written under a free name and moved to where its path
leads when a link at the last name is kept. What is read from the path afterwards
is not always what was written. When the path goes through the very link that is
replaced, the way to the file is gone, and nothing can be read at all. But what
can be read is always the new content: the names before the last one cannot lead
to another directory than before, because nothing but two dead ends has changed.

When the path was no link there is nothing that the way can have lost. The
directories that were missing above the file do not change this: when one was
made, the file's own directory was made last and is empty.

## Main definitions

* `FileTree.Fresh`: Names that lead to a directory with nothing in it.
* `FileTree.Replaced`: How a tree with a file replaced came about.

## Theorems

* `freeName_free`: A temporary name is not taken.
* `makeNames_fresh`: Missing directories are made down to an empty one.
* `replaceFile_steps`, `replaceFile_replaced`: Replacing a file, step by step.
* `readBytes_replaceFile`: What is read after replacing is what was written.
* `replaceFile_noLink`: A path whose file was replaced is no link.
* `replaceFile_readable`: A path that was no link can be read after replacing.
-/

namespace QueryDesk

/-- An attempt that failed is none that went well, whatever the two leave. -/
theorem failed_ne_ok {σ ε α : Type} {left right : σ} {failure : ε} {value : α} :
    (left, Except.error failure) ≠ (right, .ok value) := by
  simp only [ne_eq, Prod.mk.injEq, reduceCtorEq, and_false, not_false_eq_true]

namespace FileTree

variable {refusals : Refusals}

/-! ## Temporary names -/

theorem temporaryName_injective (target : Text) (marks marks' : Nat)
    (h : temporaryName target marks = temporaryName target marks') : marks = marks' := by
  have hlength := congrArg List.length h
  simp only [temporaryName, List.length_append, List.length_replicate] at hlength
  omega

theorem mem_keys_of_has (name : Text) (entries : Table Entry)
    (h : Table.has name entries = true) : name ∈ entries.map (·.1) := by
  induction entries with
  | nil => exact absurd h Bool.false_ne_true
  | cons entry rest ih =>
      rcases entry with ⟨key, value⟩
      rw [List.map_cons, List.mem_cons]
      by_cases hkey : key = name
      · exact Or.inl hkey.symm
      · refine Or.inr (ih ?_)
        rwa [Table.has, Table.get?, if_neg hkey] at h

/-- A temporary name is not taken: there are more of them than entries. -/
theorem freeName_free (entries : Table Entry) (target : Text) :
    Table.get? (freeName entries target) entries = none := by
  unfold freeName
  cases hfind : (List.range (entries.length + 1)).find? fun marks =>
      !Table.has (temporaryName target marks) entries with
  | some marks =>
      have hfree := List.find?_some hfind
      simp only [Table.has, Bool.not_eq_true', Option.isSome_eq_false_iff,
        Option.isNone_iff_eq_none] at hfree
      exact hfree
  | none =>
      have htaken : (List.range (entries.length + 1)).map (temporaryName target)
          ⊆ entries.map (·.1) := by
        intro name hname
        rcases List.mem_map.mp hname with ⟨marks, hmarks, rfl⟩
        refine mem_keys_of_has _ entries ?_
        simpa only [Bool.not_eq_true', Bool.not_eq_false]
          using List.find?_eq_none.mp hfind marks hmarks
      have hnodup : ((List.range (entries.length + 1)).map (temporaryName target)).Nodup :=
        List.Pairwise.map _ (fun a b hne heq => hne (temporaryName_injective target a b heq))
          List.nodup_range
      have hlength := hnodup.length_le_of_subset htaken
      simp only [List.length_map, List.length_range] at hlength
      omega

-- The temporary file is put under a free name of a directory.
theorem temporaryFor_free (tree : FileTree) (workDir : Place) (path : FilePath) (source : Temporary)
    (h : tree.temporaryFor refusals workDir path = .ok source) :
    ∃ parent name, source.place = parent ++ [name] ∧ tree.kind? parent = some .directory
      ∧ tree.kind? (parent ++ [name]) = none ∧ ∃ marks, name = temporaryName path.name marks := by
  unfold temporaryFor at h
  simp only at h
  split at h
  · exact absurd h (by simp only [reduceCtorEq, not_false_eq_true])
  split at h
  · exact absurd h (by simp only [reduceCtorEq, not_false_eq_true])
  split at h
  · exact absurd h (by simp only [reduceCtorEq, not_false_eq_true])
  · exact absurd h (by simp only [reduceCtorEq, not_false_eq_true])
  · next parent entries hfind =>
      split at h
      · exact absurd h (by simp only [reduceCtorEq, not_false_eq_true])
      split at h
      · exact absurd h (by simp only [reduceCtorEq, not_false_eq_true])
      · have hentry := ((find_eq_ok_iff workDir _ parent _).mp hfind).2
        refine ⟨parent, freeName entries path.name, ?_, ?_, ?_, _, rfl⟩
        · rw [← Except.ok.inj h]
        · rw [kind?, hentry]
          rfl
        · rw [kind?_concat hentry]
          exact congrArg (Option.map Entry.kind) (freeName_free entries path.name)
  · exact absurd h (by simp only [reduceCtorEq, not_false_eq_true])

/-! ## Missing directories -/

/-- The names lead to a directory with nothing in it. -/
def Fresh (tree : FileTree) (names : List Text) : Prop :=
  ∃ used place, tree.Route [] names used place ∧ tree.kind? place = some .directory
    ∧ ∀ name, tree.kind? (place ++ [name]) = none

-- In a directory with nothing in it no name leads further.
theorem Fresh.no_route {tree : FileTree} {front : List Text} (h : tree.Fresh front) (name : Text)
    (hname : Path.Proper name) (used : Nat) (goal : Place) :
    ¬ tree.Route [] (front ++ [name]) used goal := by
  rcases h with ⟨_, place, hroute, _, hempty⟩
  intro hlonger
  rcases hlonger.split front [name] rfl with ⟨middle, _, _, hfront, hlast, _⟩
  rw [(hfront.deterministic hroute).2] at hlast
  cases hlast with
  | step _ _ _ stride _ _ hstride _ =>
      rcases stride?_cases place name stride hstride with
        ⟨hkept, _⟩ | ⟨_, hup, _⟩ | ⟨_, _, _, ⟨_, hfound, _⟩ | ⟨_, hfound, _, _⟩⟩
      · exact absurd (hname.kept.symm.trans hkept) Bool.false_ne_true
      · exact hname.not_up hup
      · rw [hempty name] at hfound
        exact absurd hfound (Option.some_ne_none _).symm
      · rw [hempty name] at hfound
        exact absurd hfound (Option.some_ne_none _).symm

/-- A directory that was made is where the path lacked its last name. -/
theorem makeDirectory_ok (tree made : FileTree) (workDir : Place) (path : Text)
    (h : tree.makeDirectory refusals workDir path = (made, .ok ())) :
    ∃ parent name, tree.walk workDir .kept path = .ok (.missing parent name)
      ∧ made = tree.put (parent ++ [name]) (.directory []) := by
  unfold makeDirectory at h
  split at h
  · exact absurd h failed_ne_ok
  · exact absurd h failed_ne_ok
  next parent name hwalk =>
  split at h
  · exact absurd h failed_ne_ok
  · exact ⟨parent, name, hwalk, (Prod.mk.inj h).1.symm⟩

-- A directory that was made is there, with nothing in it.
theorem makeDirectory_fresh (tree made : FileTree) (workDir : Place) (slashes : Nat)
    (front : List Text) (name : Text) (hslashes : 0 < slashes)
    (hfront : ∀ name ∈ front, Path.Proper name) (hname : Path.Proper name)
    (h : tree.makeDirectory refusals workDir (Path.write slashes (front ++ [name]))
      = (made, .ok ())) :
    made.Fresh (front ++ [name]) := by
  rcases makeDirectory_ok tree made workDir _ h with ⟨above, missing, hwalk, hmade⟩
  rcases (walk_kept_eq_ok_iff workDir slashes front name _ hslashes hfront hname).mp hwalk
    with ⟨_, used, parent, _, hroute, hparent, hshort, hreached⟩
  cases hold : tree.kind? (parent ++ [name]) with
  | some kind =>
      rw [hold] at hreached
      exact absurd hreached (by simp only [reduceCtorEq, not_false_eq_true])
  | none =>
      rw [hold] at hreached
      rcases Reached.missing.inj hreached with ⟨rfl, rfl⟩
      have hkind : ∀ place, made.kind? place
          = if place = above ++ [missing] then some .directory else tree.kind? place := by
        intro place
        rw [hmade]
        exact kind?_put tree (.directory []) above place missing hparent
          (by rw [hold]; exact (Option.some_ne_none _).symm) rfl
      -- Where the directory was made there was nothing, so no way can have led past it.
      have hdead : DeadEnds tree made (· = above ++ [missing]) := by
        refine ⟨fun place hplace => ?_, fun place hplace => ?_, fun place target hplace => ?_⟩
        · rw [hkind, if_neg hplace]
        · rw [hplace, hold]
          exact (Option.some_ne_none _).symm
        · rw [hplace, hold]
          exact (Option.some_ne_none _).symm
      have habove : made.kind? above = some .directory := by
        rw [hkind, if_neg (Place.ne_concat above missing), hparent]
      have hself : made.kind? (above ++ [missing]) = some .directory := by rw [hkind, if_pos rfl]
      have hfurther := (hroute.transfer hdead (Place.ne_concat above missing)).enter hname habove
        hshort hself fun _ => by simp only [ne_eq, reduceCtorEq, not_false_eq_true]
      refine ⟨used, above ++ [missing], hfurther, hself, fun n => ?_⟩
      rw [hkind, if_neg (Place.ne_concat _ n).symm]
      exact kind?_concat_of_none tree _ n hold

-- A path that is taken for a directory already there leads somewhere.
theorem acceptExisting_route (tree : FileTree) (workDir : Place) (slashes : Nat) (names : List Text)
    (fault : FileFault) (hslashes : 0 < slashes) (hnames : ∀ name ∈ names, Path.Proper name)
    (h : tree.acceptExisting workDir (Path.write slashes names) fault = .ok ()) :
    ∃ used goal, tree.Route [] names used goal := by
  -- Only a directory that is found there makes up for the fault.
  have htest : tree.test workDir Entry.isDirectory (Path.write slashes names) = .ok true := by
    unfold acceptExisting at h
    split at h
    · exact absurd h (by simp only [reduceCtorEq, not_false_eq_true])
    · exact absurd h (by simp only [reduceCtorEq, not_false_eq_true])
    · split at h
      · next htest => exact htest
      · exact absurd h (by simp only [reduceCtorEq, not_false_eq_true])
      · exact absurd h (by simp only [reduceCtorEq, not_false_eq_true])
  unfold test at htest
  split at htest
  · next goal entry hfind =>
      have hwalk := ((find_eq_ok_iff workDir _ goal entry).mp hfind).1
      rcases (walk_eq_present_iff workDir slashes names goal hslashes hnames).mp hwalk with
        ⟨_, used, _, hroute⟩
      exact ⟨used, goal, hroute⟩
  · exact absurd htest (by simp only [Except.ok.injEq, Bool.false_eq_true, not_false_eq_true])
  · exact absurd htest (by simp only [reduceCtorEq, not_false_eq_true])
  · split at htest
    · exact absurd htest (by simp only [Except.ok.injEq, Bool.false_eq_true, not_false_eq_true])
    · exact absurd htest (by simp only [reduceCtorEq, not_false_eq_true])

theorem makeDirectory_error (tree made : FileTree) (workDir : Place) (path : Text)
    (fault : FileFault) (h : tree.makeDirectory refusals workDir path = (made, .error fault)) :
    made = tree := by
  unfold makeDirectory at h
  split at h
  · exact (Prod.mk.inj h).1.symm
  · exact (Prod.mk.inj h).1.symm
  split at h
  · exact (Prod.mk.inj h).1.symm
  · exact absurd h.symm failed_ne_ok

-- The root is never made.
theorem makeDirectory_root (tree made : FileTree) (workDir : Place) (slashes : Nat)
    (hslashes : slashes = 1 ∨ slashes = 2) :
    tree.makeDirectory refusals workDir (Path.write slashes []) ≠ (made, .ok ()) := by
  intro h
  rcases makeDirectory_ok tree made workDir _ h with ⟨parent, name, hwalk, -⟩
  have habsolute : Path.isAbsolute (Path.write slashes []) = true :=
    Path.isAbsolute_write slashes [] (by omega)
  have hnames := ((walk_absolute_iff workDir .kept _ _ habsolute).mp hwalk).2
  have hroot : tree.walkNames .kept (maxLinks + 1) [] (Text.splitOn '/' (Path.write slashes []))
      = .ok (.present []) := by
    rcases hslashes with rfl | rfl <;> rfl
  rw [hroot] at hnames
  exact absurd hnames (by simp only [Except.ok.injEq, reduceCtorEq, not_false_eq_true])

-- A directory that could be made is the one the names lead to.
theorem makeDirectory_fresh_names (tree made : FileTree) (workDir : Place) (slashes : Nat)
    (names : List Text) (hslashes : slashes = 1 ∨ slashes = 2)
    (hnames : ∀ name ∈ names, Path.Proper name)
    (h : tree.makeDirectory refusals workDir (Path.write slashes names) = (made, .ok ())) :
    made.Fresh names := by
  rcases List.eq_nil_or_concat' names with rfl | ⟨front, name, rfl⟩
  · exact absurd h (makeDirectory_root tree made workDir slashes hslashes)
  · exact makeDirectory_fresh tree made workDir slashes front name (by omega)
      (fun n hn => hnames n (List.mem_append_left _ hn))
      (hnames name (List.mem_append_right _ (List.mem_singleton_self name))) h

-- Making what is missing of a directory makes nothing, or the directory itself last.
theorem makeNames_fresh (tree made : FileTree) (workDir : Place) (slashes room : Nat)
    (names : List Text) (hslashes : slashes = 1 ∨ slashes = 2)
    (hnames : ∀ name ∈ names, Path.Proper name)
    (h : makeNames refusals workDir slashes room names tree = (made, .ok ())) :
    made = tree ∨ made.Fresh names.reverse := by
  induction room generalizing names tree made with
  | zero => exact absurd h failed_ne_ok
  | succ room ih =>
      have hreverse : ∀ name ∈ names.reverse, Path.Proper name := fun name hname =>
        hnames name (List.mem_reverse.mp hname)
      have hnew := fun before after : FileTree =>
        @makeDirectory_fresh_names refusals before after workDir slashes names.reverse hslashes
          hreverse
      unfold makeNames at h
      simp only at h
      split at h
      · next after hmake =>
          rw [← (Prod.mk.inj h).1]
          exact Or.inr (hnew tree _ hmake)
      · next after path target hmake =>
          have hafter := makeDirectory_error tree after workDir _ _ hmake
          split at h
          · exact absurd h failed_ne_ok
          next _ name above =>
          split at h
          · exact absurd h failed_ne_ok
          next raised habove =>
          rw [hafter] at habove
          have hraised := ih tree raised above
            (fun n hn => hnames n (List.mem_cons_of_mem name hn)) habove
          split at h
          · next later hmake =>
              rw [← (Prod.mk.inj h).1]
              exact Or.inr (hnew raised _ hmake)
          · exact absurd h failed_ne_ok
          · next later fault hfault hmake =>
              have hlater := makeDirectory_error raised later workDir _ _ hmake
              rcases Prod.mk.inj h with ⟨hmade, haccept⟩
              rw [hlater] at hmade haccept
              rcases hraised with hraised | hraised
              · exact Or.inl (hmade.symm.trans hraised)
              · -- The last directory is missing in one just made, so it is not there already.
                rcases acceptExisting_route raised workDir slashes _ fault (by omega) hreverse
                  haccept with ⟨used, goal, hroute⟩
                rw [List.reverse_cons] at hroute
                have hname := hnames name List.mem_cons_self
                exact absurd hroute (hraised.no_route name hname used goal)
      · next after fault hfault hmake =>
          refine Or.inl ?_
          rw [← (Prod.mk.inj h).1]
          exact makeDirectory_error tree after workDir _ _ hmake

/-! ## Replacing a file -/

-- What a move that was made did.
theorem move_ok (tree moved : FileTree) (workDir : Place) (source : Temporary) (path : Text)
    (h : tree.move refusals workDir source path = (moved, .ok ())) :
    ∃ reached entry, tree.walk workDir .kept path = .ok reached ∧ Path.baseName path ≠ []
      ∧ reached.place ≠ source.place ∧ tree.kind? reached.place ≠ some .directory
      ∧ tree.entry? source.place = some entry
      ∧ moved = (tree.remove source.place).put reached.place entry := by
  unfold move at h
  simp only at h
  split at h
  · exact absurd h failed_ne_ok
  · exact absurd h failed_ne_ok
  next reached hwalk =>
  split at h
  · exact absurd h failed_ne_ok
  -- From here on the last name, the prefix and the directory at the place are ruled out.
  next hlast =>
  split at h
  · exact absurd h failed_ne_ok
  next hbelow =>
  split at h
  · exact absurd h failed_ne_ok
  next hdirectory =>
  split at h
  · exact absurd h failed_ne_ok
  · next entry _ hentry =>
      refine ⟨reached, entry, hwalk, ?_, ?_, ?_, hentry, (Prod.mk.inj h).1.symm⟩
      · intro hempty
        rw [hempty] at hlast
        exact hlast rfl
      · intro hplace
        rw [hplace] at hbelow
        exact hbelow (List.isPrefixOf_iff_prefix.mpr (List.prefix_refl _))
      · exact fun hkind => hdirectory ((isDirectoryAt_iff tree _).mpr hkind)
  · exact absurd h failed_ne_ok

/-- A file that was filled has all of its bytes. -/
theorem fillFile_ok (tree filled : FileTree) (place : Place) (executable : Bool) (content : Bytes)
    (h : tree.fillFile refusals place executable content = (filled, .ok ())) :
    filled = tree.put place (.file content executable) := by
  unfold fillFile at h
  simp only at h
  split at h
  · exact absurd h failed_ne_ok
  · exact (Prod.mk.inj h).1.symm

/-- So has a temporary file. -/
theorem fill_ok (tree filled : FileTree) (source : Temporary) (content : Option Bytes)
    (h : tree.fill refusals source content = (filled, .ok ())) :
    ∃ bytes, content = some bytes ∧ filled = tree.put source.place (.file bytes false) := by
  unfold fill at h
  split at h
  · exact absurd h failed_ne_ok
  · next bytes => exact ⟨bytes, rfl, fillFile_ok tree filled _ _ bytes h⟩

/-- A file that was replaced was written to a temporary file, after the directories were made,
    and this was moved. -/
theorem replaceFile_steps {tree final : FileTree} {workDir : Place} {path : FilePath}
    {content : Option Bytes}
    (h : tree.replaceFile refusals workDir path content = (final, .ok ())) :
    ∃ made source bytes, content = some bytes
      ∧ tree.makeDirectories refusals workDir path.parent = (made, .ok ())
      ∧ made.temporaryFor refusals workDir path = .ok source
      ∧ (made.put source.place (.file bytes false)).move refusals workDir source path.text
        = (final, .ok ()) := by
  unfold replaceFile at h
  split at h
  · exact absurd h failed_ne_ok
  next made hmade =>
  split at h
  · exact absurd h failed_ne_ok
  next source hsource =>
  split at h
  · exact absurd h failed_ne_ok
  next filled hfill =>
  rcases fill_ok made filled source content hfill with ⟨bytes, hcontent, rfl⟩
  split at h
  · next moved hmove =>
      rw [(Prod.mk.inj h).1] at hmove
      exact ⟨made, source, bytes, hcontent, hmade, hsource, hmove⟩
  · exact absurd h failed_ne_ok

/-- How a tree with a file replaced came about. The directories were made, the
    content was written to a temporary file, and this was moved to where the path
    leads. -/
structure Replaced (made written final : FileTree) (front : List Text) (name : Text)
    (parent temporary : Place) (content : Bytes) : Prop where
  route : ∃ used, used ≤ maxLinks ∧ written.Route [] front used parent
  short : ¬ maxNameBytes < (Utf8.encode name).length
  directory : written.kind? parent = some .directory
  noDirectory : written.kind? (parent ++ [name]) ≠ some .directory
  free : made.kind? temporary = none
  apart : parent ++ [name] ≠ temporary
  before : ∀ place, written.kind? place
    = if place = temporary then some (.file content false) else made.kind? place
  after : ∀ place, final.kind? place
    = if place = parent ++ [name] then some (.file content false)
      else if place = temporary then none else written.kind? place

-- A file is written under a free name, and what is there is moved elsewhere.
theorem kind?_written_moved (made : FileTree) (beside parent : Place) (free name : Text)
    (content : Bytes) (hbeside : made.kind? beside = some .directory)
    (hfree : made.kind? (beside ++ [free]) = none) (written : FileTree)
    (hwritten : written = made.put (beside ++ [free]) (.file content false))
    (hparent : written.kind? parent = some .directory)
    (hold : written.kind? (parent ++ [name]) ≠ some .directory)
    (hapart : parent ++ [name] ≠ beside ++ [free]) :
    (∀ place, written.kind? place
        = if place = beside ++ [free] then some (.file content false) else made.kind? place)
      ∧ ∀ place, ((written.remove (beside ++ [free])).put (parent ++ [name])
          (.file content false)).kind? place
        = if place = parent ++ [name] then some (.file content false)
          else if place = beside ++ [free] then none else written.kind? place := by
  have hbefore : ∀ place, written.kind? place
      = if place = beside ++ [free] then some (.file content false) else made.kind? place := by
    intro place
    rw [hwritten]
    exact kind?_put made (.file content false) beside place free hbeside
      (by rw [hfree]; exact (Option.some_ne_none _).symm) rfl
  have hself : written.kind? (beside ++ [free]) = some (.file content false) := by
    rw [hbefore, if_pos rfl]
  have habove : written.kind? beside = some .directory := by
    rw [hbefore, if_neg (Place.ne_concat beside free), hbeside]
  have hremoved := fun place => kind?_remove written beside place free habove
    (by rw [hself]; simp only [ne_eq, Option.some.injEq, reduceCtorEq, not_false_eq_true])
  -- A directory is no file, so the file that is moved away is not above its new place.
  have hparentApart : parent ≠ beside ++ [free] := by
    intro heq
    rw [heq, hself] at hparent
    exact absurd hparent (by simp only [Option.some.injEq, reduceCtorEq, not_false_eq_true])
  refine ⟨hbefore, fun place => ?_⟩
  rw [kind?_put _ (.file content false) parent place name
    (by rw [hremoved, if_neg hparentApart, hparent])
    (by rw [hremoved, if_neg hapart]; exact hold) rfl, hremoved]
  rfl

/-- Replacing a file, step by step. -/
theorem replaceFile_replaced (tree final : FileTree) (workDir : Place) (slashes : Nat)
    (names : List Text) (content : Bytes) (hslashes : slashes = 1 ∨ slashes = 2)
    (hnames : ∀ name ∈ names, Path.Proper name)
    (h : tree.replaceFile refusals workDir ⟨slashes, names⟩ (some content) = (final, .ok ())) :
    ∃ made written front name parent temporary, names = front ++ [name]
      ∧ tree.makeDirectories refusals workDir ⟨slashes, front⟩ = (made, .ok ())
      ∧ Path.Admitted (Path.write slashes names)
      ∧ Replaced made written final front name parent temporary content := by
  rcases replaceFile_steps h with ⟨made, source, bytes, hbytes, hmade, hsource, hmove⟩
  rw [Option.some.injEq] at hbytes
  subst hbytes
  rcases temporaryFor_free made workDir _ source hsource with
    ⟨beside, free, htemporary, hbeside, hfree, -⟩
  rcases move_ok _ final workDir source _ hmove with
    ⟨reached, entry, hwalk, hbase, hapart, hold, hentry, hmoved⟩
  -- A path without names ends in a slash, and nothing is moved there.
  rcases List.eq_nil_or_concat names with rfl | ⟨front, name, hconcat⟩
  · rcases hslashes with rfl | rfl <;> exact absurd rfl hbase
  rw [List.concat_eq_append] at hconcat
  subst hconcat
  rcases (walk_kept_eq_ok_iff workDir slashes front name reached (by omega)
    (fun n hn => hnames n (List.mem_append_left _ hn))
    (hnames name (List.mem_append_right _ (List.mem_singleton_self name)))).mp hwalk with
    ⟨hadmitted, used, parent, hused, hroute, hparent, hshort, hreached⟩
  have hplace : reached.place = parent ++ [name] := by
    rw [hreached]
    split <;> rfl
  rw [hplace, htemporary] at hapart
  rw [hplace] at hold hmoved
  rw [htemporary] at hentry hmoved hparent hold hroute
  rw [FileTree.entry?_put_self, Option.some.injEq] at hentry
  rcases kind?_written_moved made beside parent free name content hbeside hfree _ rfl hparent
    hold hapart with ⟨hbefore, hafter⟩
  refine ⟨made, _, front, name, parent, beside ++ [free], rfl, ?_, hadmitted,
    ⟨⟨used, hused, hroute⟩, hshort, hparent, hold, hfree, hapart, hbefore, ?_⟩⟩
  · rw [← hmade]
    simp only [FilePath.parent, List.dropLast_concat]
  · rw [hmoved, ← hentry]
    exact hafter

namespace Replaced

variable {made written final : FileTree} {front : List Text} {name : Text}
  {parent temporary : Place} {content : Bytes}

-- The temporary file is a dead end.
theorem deadEnds_written (h : Replaced made written final front name parent temporary content) :
    DeadEnds written made (· = temporary) := by
  refine ⟨fun place hplace => ?_, fun place hplace => ?_, fun place target hplace => ?_⟩
  · rw [h.before, if_neg hplace]
  · rw [h.before, if_pos hplace]
    simp only [ne_eq, Option.some.injEq, reduceCtorEq, not_false_eq_true]
  · rw [h.before, if_pos hplace]
    simp only [ne_eq, Option.some.injEq, reduceCtorEq, not_false_eq_true]

theorem same_final (h : Replaced made written final front name parent temporary content)
    (place : Place) (hplace : ¬ (place = parent ++ [name] ∨ place = temporary)) :
    final.kind? place = written.kind? place := by
  rw [not_or] at hplace
  rw [h.after, if_neg hplace.1, if_neg hplace.2]

theorem final_file (h : Replaced made written final front name parent temporary content) :
    final.kind? (parent ++ [name]) = some (.file content false) := by
  rw [h.after, if_pos rfl]

theorem final_temporary (h : Replaced made written final front name parent temporary content) :
    final.kind? temporary = none := by
  rw [h.after, if_neg h.apart.symm, if_pos rfl]

-- The file that was replaced and the temporary one are dead ends afterwards.
theorem deadEnds_final (h : Replaced made written final front name parent temporary content) :
    DeadEnds final written fun place => place = parent ++ [name] ∨ place = temporary := by
  refine ⟨h.same_final, fun place hplace => ?_, fun place target hplace => ?_⟩
  · rcases hplace with rfl | rfl
    · rw [h.final_file]
      simp only [ne_eq, Option.some.injEq, reduceCtorEq, not_false_eq_true]
    · rw [h.final_temporary]
      exact (Option.some_ne_none _).symm
  · rcases hplace with rfl | rfl
    · rw [h.final_file]
      simp only [ne_eq, Option.some.injEq, reduceCtorEq, not_false_eq_true]
    · rw [h.final_temporary]
      exact (Option.some_ne_none _).symm

-- The directory of the file stays one.
theorem parent_apart (h : Replaced made written final front name parent temporary content) :
    ¬ (parent = parent ++ [name] ∨ parent = temporary) := by
  rintro (heq | heq)
  · exact Place.ne_concat parent name heq
  · have hdirectory := h.directory
    rw [heq, h.before, if_pos rfl] at hdirectory
    exact absurd hdirectory (by simp only [Option.some.injEq, reduceCtorEq, not_false_eq_true])

-- It was there before the temporary file was, and the names led to it.
theorem made_directory (h : Replaced made written final front name parent temporary content) :
    made.kind? parent = some .directory := by
  rw [← h.deadEnds_written.same parent fun heq => h.parent_apart (Or.inr heq), h.directory]

theorem route_made (h : Replaced made written final front name parent temporary content) :
    ∃ used, used ≤ maxLinks ∧ made.Route [] front used parent := by
  rcases h.route with ⟨used, hused, hroute⟩
  exact ⟨used, hused, hroute.transfer h.deadEnds_written fun heq => h.parent_apart (Or.inr heq)⟩

-- Where the file comes to was something before only if no directory was made, because the last
-- directory that is made is empty.
theorem nothing_made (h : Replaced made written final front name parent temporary content)
    (workDir : Place) (slashes : Nat) (hslashes : slashes = 1 ∨ slashes = 2)
    (hfront : ∀ name ∈ front, Path.Proper name)
    (hmade : tree.makeDirectories refusals workDir ⟨slashes, front⟩ = (made, .ok ()))
    (hthere : made.kind? (parent ++ [name]) ≠ none) :
    made = tree ∧ ∃ used, used ≤ maxLinks ∧ tree.Route [] front used parent := by
  rcases h.route_made with ⟨used, hused, hroute⟩
  rcases makeNames_fresh tree made workDir slashes maxMissing front.reverse hslashes
    (fun n hn => hfront n (List.mem_reverse.mp hn)) hmade with rfl | ⟨_, place, hplace, _, hempty⟩
  · exact ⟨rfl, used, hused, hroute⟩
  · rw [List.reverse_reverse] at hplace
    rw [(hroute.deterministic hplace).2, hempty name] at hthere
    exact absurd rfl hthere

theorem final_directory (h : Replaced made written final front name parent temporary content) :
    final.kind? parent = some .directory := by
  rw [h.same_final parent h.parent_apart, h.directory]

theorem route_file (h : Replaced made written final front name parent temporary content)
    {place : Place} {names : List Text} {used : Nat} (hname : Path.Proper name)
    (hroute : final.Route place names used parent) :
    final.Route place (names ++ [name]) used (parent ++ [name]) :=
  hroute.enter hname h.final_directory h.short h.final_file fun _ =>
    by simp only [ne_eq, reduceCtorEq, not_false_eq_true]

-- Where the names before the last one lead to a directory after the file was replaced, they can
-- have passed neither dead end, so it is the directory they led to before.
theorem parent_eq (h : Replaced made written final front name parent temporary content)
    {used : Nat} {middle : Place} (hroute : final.Route [] front used middle)
    (hmiddle : final.kind? middle = some .directory) : middle = parent := by
  have hbefore := hroute.transfer h.deadEnds_final fun hdead =>
    h.deadEnds_final.noDirectory middle hdead hmiddle
  rcases h.route with ⟨_, _, hparent⟩
  exact (hbefore.deterministic hparent).2

-- Whatever the names lead to after the file was replaced, it is the file.
theorem goal_eq (h : Replaced made written final front name parent temporary content)
    (hname : Path.Proper name) (used : Nat) (goal : Place)
    (hroute : final.Route [] (front ++ [name]) used goal) : goal = parent ++ [name] := by
  rcases hroute.split front [name] rfl with ⟨middle, _, _, hfront, hlast, _⟩
  rw [h.parent_eq hfront (hlast.directory (List.cons_ne_nil _ _))] at hlast
  have hfile := h.route_file hname (.arrived parent)
  rw [List.nil_append] at hfile
  exact (hlast.deterministic hfile).2

end Replaced

/-- What is read from a path after its file was replaced is what was written. -/
theorem readBytes_replaceFile (tree final : FileTree) (workDir : Place) (slashes : Nat)
    (names : List Text) (content bytes : Bytes) (hslashes : slashes = 1 ∨ slashes = 2)
    (hnames : ∀ name ∈ names, Path.Proper name)
    (h : tree.replaceFile refusals workDir ⟨slashes, names⟩ (some content) = (final, .ok ()))
    (hread : final.readBytes workDir (Path.write slashes names) = .ok bytes) : bytes = content := by
  rcases replaceFile_replaced tree final workDir slashes names content hslashes hnames h with
    ⟨made, written, front, name, parent, temporary, rfl, _, _, hreplaced⟩
  rcases (readBytes_eq_ok_iff workDir slashes _ bytes (by omega) hnames).mp hread with
    ⟨_, used, goal, executable, _, hroute, hkind⟩
  have hname := hnames name (List.mem_append_right _ (List.mem_singleton_self name))
  rw [hreplaced.goal_eq hname used goal hroute, hreplaced.final_file, Option.some.injEq] at hkind
  exact (Entry.Kind.file.inj hkind).1.symm

/-- A path whose file was replaced is no link: if it can be walked at all, it leads to
    the file itself. -/
theorem replaceFile_noLink (tree final : FileTree) (workDir : Place) (slashes : Nat)
    (names : List Text) (content : Bytes) (hslashes : slashes = 1 ∨ slashes = 2)
    (hnames : ∀ name ∈ names, Path.Proper name)
    (h : tree.replaceFile refusals workDir ⟨slashes, names⟩ (some content) = (final, .ok ()))
    (place : Place)
    (hwalk : final.walk workDir .kept (Path.write slashes names) = .ok (.present place)) :
    final.linkAt? place = none := by
  rcases replaceFile_replaced tree final workDir slashes names content hslashes hnames h with
    ⟨made, written, front, name, parent, temporary, rfl, _, _, hreplaced⟩
  have hname := hnames name (List.mem_append_right _ (List.mem_singleton_self name))
  have hfront : ∀ n ∈ front, Path.Proper n := fun n hn => hnames n (List.mem_append_left _ hn)
  rcases (walk_kept_eq_ok_iff workDir slashes front name _ (by omega) hfront hname).mp hwalk with
    ⟨_, used, middle, _, hroute, hmiddle, _, hreached⟩
  rw [hreplaced.parent_eq hroute hmiddle, hreplaced.final_file, Reached.present.injEq] at hreached
  rw [hreached, linkAt?_eq_none_iff, hreplaced.final_file]
  simp only [ne_eq, Option.some.injEq, reduceCtorEq, not_false_eq_true, implies_true]

/-- A path that was no link can be read after its file was replaced. -/
theorem replaceFile_readable (tree final : FileTree) (workDir : Place) (slashes : Nat)
    (names : List Text) (content : Bytes) (hslashes : slashes = 1 ∨ slashes = 2)
    (hnames : ∀ name ∈ names, Path.Proper name)
    (hlink : ∀ place, tree.walk workDir .kept (Path.write slashes names) = .ok (.present place) →
      tree.linkAt? place = none)
    (h : tree.replaceFile refusals workDir ⟨slashes, names⟩ (some content) = (final, .ok ())) :
    final.readBytes workDir (Path.write slashes names) = .ok content := by
  rcases replaceFile_replaced tree final workDir slashes names content hslashes hnames h with
    ⟨made, written, front, name, parent, temporary, rfl, hmade, hadmitted, hreplaced⟩
  have hname := hnames name (List.mem_append_right _ (List.mem_singleton_self name))
  have hfront : ∀ n ∈ front, Path.Proper n := fun n hn => hnames n (List.mem_append_left _ hn)
  rcases hreplaced.route with ⟨used, hused, hroute⟩
  have hnolink : ∀ target, written.kind? (parent ++ [name]) ≠ some (.link target) := by
    intro target hkind
    rw [hreplaced.before, if_neg hreplaced.apart] at hkind
    -- In a directory made just now there is no link, so it was there before.
    rcases hreplaced.nothing_made workDir slashes hslashes hfront hmade
      (by rw [hkind]; exact Option.some_ne_none _) with ⟨rfl, links, hlinks, hbefore⟩
    have hwalk := (walk_kept_eq_ok_iff workDir slashes front name (.present (parent ++ [name]))
      (by omega) hfront hname).mpr ⟨hadmitted, links, parent, hlinks, hbefore,
        hreplaced.made_directory, hreplaced.short, by rw [hkind]⟩
    exact (linkAt?_eq_none_iff made _).mp (hlink _ hwalk) target hkind
  -- No link was lost, so the way to the directory is the same as before the move.
  have hdead : DeadEnds written final
      fun place => place = parent ++ [name] ∨ place = temporary := by
    refine ⟨fun place hplace => (hreplaced.same_final place hplace).symm, fun place hplace => ?_,
      fun place target hplace => ?_⟩
    · rcases hplace with rfl | rfl
      · exact hreplaced.noDirectory
      · exact hreplaced.deadEnds_written.noDirectory _ rfl
    · rcases hplace with rfl | rfl
      · exact hnolink target
      · exact hreplaced.deadEnds_written.noLink _ target rfl
  exact (readBytes_eq_ok_iff workDir slashes _ content (by omega) hnames).mpr ⟨hadmitted, used, _,
    false, hused, hreplaced.route_file hname (hroute.transfer hdead hreplaced.parent_apart),
    hreplaced.final_file⟩

end FileTree

end QueryDesk
