import Mathlib.Data.List.Flatten
import QueryDesk.Proofs.Files.Direct
import QueryDesk.Proofs.Files.Moved

/-!
# Files that their paths name

A path names a file when the names before its last one lead to a directory and the file is
there under the last name. So the path is no link: a link there would be replaced, and not
the file it leads to.

As far as the tree is concerned, such a file can be replaced just when a temporary file can
be made for it. No directory is missing above it, so none is made. The temporary file is put
where nothing was, which the way to the directory cannot have come through. Then nothing in
the tree can stop the move: the last name is one that can be moved to, and what stands under
it is no directory. Where the file was replaced it has the new content, and nothing else has
changed.

## Main definitions

* `FileTree.Leads`: A path that leads to a place.
* `FileTree.Names`: A path whose last name is one in a directory.

## Theorems

* `Path.admitted_write`: A path written from some names of another one can be walked.
* `leads_of_readBytes`, `Leads.readBytes`: Reading the file a path leads to.
* `Leads.refill`: A path leads where it did when files have other contents.
* `names_of_leads`: A path that is no link names the file it leads to.
* `Names.makeDirectories`: No directory is missing above a file.
* `Names.replaced`: What the tree is like when the file was replaced.
* `Names.replaceFile`: The file is replaced when nothing is refused.
-/

namespace QueryDesk

/-! ## Paths written from names of another path -/

theorem Text.join_sublist (sep : Text) {parts more : List Text} (h : parts.Sublist more) :
    (join sep parts).Sublist (join sep more) := by
  induction h with
  | slnil => exact List.Sublist.refl _
  | @cons parts more part h ih =>
      cases more with
      | nil =>
          rw [List.sublist_nil.mp h]
          exact List.nil_sublist _
      | cons second rest =>
          rw [join, join, List.intercalate_cons_cons]
          exact ih.trans (List.sublist_append_right _ _)
  | @cons_cons parts more part h ih =>
      cases parts with
      | nil =>
          cases more with
          | nil => exact List.Sublist.refl _
          | cons second rest =>
              rw [join, join, List.intercalate_singleton, List.intercalate_cons_cons,
                List.append_assoc]
              exact List.sublist_append_left _ _
      | cons second rest =>
          cases more with
          | nil => exact absurd (List.sublist_nil.mp h) (List.cons_ne_nil _ _)
          | cons third others =>
              rw [join, join, List.intercalate_cons_cons, List.intercalate_cons_cons]
              exact (List.Sublist.refl _).append ih

namespace Path

theorem exists_leadingSlashes (path : Text) :
    ∃ rest, path = List.replicate (leadingSlashes path) '/' ++ rest := by
  have hrun : path.takeWhile (· == '/')
      = List.replicate (path.takeWhile (· == '/')).length '/' :=
    List.eq_replicate_iff.mpr ⟨rfl, fun c hc =>
      beq_iff_eq.mp (List.mem_takeWhile_imp (p := (· == '/')) hc)⟩
  have hle : leadingSlashes path ≤ (path.takeWhile (· == '/')).length := by
    rw [leadingSlashes]
    split
    · omega
    · omega
    · next hzero _ => exact Nat.one_le_iff_ne_zero.mpr hzero
  refine ⟨List.replicate ((path.takeWhile (· == '/')).length - leadingSlashes path) '/'
    ++ path.dropWhile (· == '/'), ?_⟩
  rw [← List.append_assoc, List.replicate_append_replicate, Nat.add_sub_cancel' hle, ← hrun,
    List.takeWhile_append_dropWhile]

-- What is written from some names of a path are characters of the path, in their order.
theorem write_sublist (path : Text) (names : List Text)
    (h : names.Sublist (FilePath.parse path).names) :
    (List.replicate (FilePath.parse path).slashes '/' ++ Text.join ['/'] names).Sublist path := by
  rcases exists_leadingSlashes path with ⟨rest, hpath⟩
  have hnames : names.Sublist (Text.splitOn '/' rest) := by
    refine h.trans ?_
    rw [FilePath.parse]
    simp only
    rw [hpath, splitOn_replicate_append, List.filter_append, List.filter_eq_nil_iff.mpr,
      List.nil_append]
    · exact List.filter_sublist
    · intro name hname
      rw [List.eq_of_mem_replicate hname]
      decide
  have hjoin := Text.join_sublist ['/'] hnames
  rw [Text.join_splitOn] at hjoin
  have happend := (List.Sublist.refl (List.replicate (leadingSlashes path) '/')).append hjoin
  rwa [← hpath] at happend

/-- A path written from some names of one that can be walked can be walked, too. -/
theorem admitted_write {path : Text} (h : Admitted path) (names : List Text)
    (hnames : names.Sublist (FilePath.parse path).names) :
    Admitted (write (FilePath.parse path).slashes names) := by
  have hsublist := write_sublist path names hnames
  have hne : ∀ name ∈ names, name ≠ [] := fun name hname =>
    (mem_splitOn_of_mem_parse path name (hnames.subset hname)).2
  unfold write
  by_cases hnone : (decide ((FilePath.parse path).slashes = 0) && names.isEmpty) = true
  · rw [if_pos hnone]
    exact ⟨by decide, by decide, by decide⟩
  rw [if_neg hnone]
  refine ⟨?_, ?_, fun hlong => h.notLong (hlong.trans (hsublist.flatMap _).length_le)⟩
  · rw [← Bool.not_eq_true]
    refine fun hnul => absurd h.noNul (Bool.not_eq_false _ ▸ ?_)
    exact List.elem_iff.mpr (hsublist.subset (List.elem_iff.mp hnul))
  · rw [List.isEmpty_eq_false_iff, ne_eq, List.append_eq_nil_iff]
    rintro ⟨hslashes, hjoin⟩
    refine hnone ?_
    rw [(List.replicate_eq_nil_iff _).mp hslashes, decide_eq_true rfl, Bool.true_and]
    cases names with
    | nil => rfl
    | cons name names =>
        cases name with
        | nil => exact absurd rfl (hne [] List.mem_cons_self)
        | cons c rest =>
            rcases Text.join_cons '/' c rest names with ⟨tail, htail⟩
            exact absurd (htail.symm.trans hjoin) (List.cons_ne_nil _ _)

end Path

namespace FileTree

variable {tree : FileTree} {refusals : Refusals} {workDir : Place} {path : Text}

/-! ## Where a path leads -/

/-- A walk along the path, from the root or from the working directory, comes to the place. -/
structure Leads (tree : FileTree) (workDir : Place) (path : Text) (goal : Place) : Prop where
  start : tree.kind? (startOf workDir path) = some .directory
  admitted : Path.Admitted path
  route : ∃ used, used ≤ maxLinks
    ∧ tree.Route (startOf workDir path) (Text.splitOn '/' path) used goal

theorem Leads.walk {goal : Place} (h : tree.Leads workDir path goal) :
    tree.walk workDir .followed path = .ok (.present goal) := by
  rcases h.route with ⟨used, hused, hroute⟩
  exact walk_of_route workDir path goal used h.start h.admitted hused hroute

/-- What is read from a path is the file it leads to. -/
theorem leads_of_readBytes {bytes : Bytes}
    (hstart : tree.kind? (startOf workDir path) = some .directory)
    (h : tree.readBytes workDir path = .ok bytes) :
    ∃ goal executable, tree.Leads workDir path goal
      ∧ tree.kind? goal = some (.file bytes executable) := by
  rcases find_of_readBytes workDir path bytes h with ⟨goal, executable, hfind⟩
  rcases (find_eq_ok_iff workDir path goal _).mp hfind with ⟨hwalk, hentry⟩
  rcases (walk_followed_iff workDir path goal).mp hwalk with ⟨hadmitted, hroute⟩
  rw [startWay_place workDir path hstart] at hroute
  exact ⟨goal, executable, ⟨hstart, hadmitted, hroute⟩, by rw [kind?, hentry]; rfl⟩

theorem Leads.readBytes {goal : Place} {bytes : Bytes} {executable : Bool}
    (h : tree.Leads workDir path goal) (hfile : tree.kind? goal = some (.file bytes executable)) :
    tree.readBytes workDir path = .ok bytes := by
  have hfind := (find_eq_ok_iff workDir path goal _).mpr
    ⟨h.walk, entry?_eq_file tree goal bytes executable hfile⟩
  rw [FileTree.readBytes, hfind]

/-- Where a path leads does not depend on what the files hold. -/
theorem Leads.refill {after : FileTree} {goal : Place} (h : tree.Leads workDir path goal)
    (hrefills : tree.Refills after) : after.Leads workDir path goal := by
  rcases h.route with ⟨used, hused, hroute⟩
  exact ⟨hrefills.directory h.start, h.admitted, used, hused, hroute.refill hrefills⟩

/-- A path written from names of another one leads along these names. -/
theorem leads_write {names : List Text} {used : Nat} {goal : Place}
    (hstart : tree.kind? (startOf workDir path) = some .directory)
    (hadmitted : Path.Admitted path) (hnames : names.Sublist (FilePath.parse path).names)
    (hused : used ≤ maxLinks) (h : tree.Route (startOf workDir path) names used goal) :
    tree.Leads workDir (Path.write (FilePath.parse path).slashes names) goal := by
  refine ⟨?_, Path.admitted_write hadmitted names hnames, used, hused,
    route_write workDir path names used goal hnames hstart h⟩
  rw [startOf_write workDir path names hnames]
  exact hstart

-- A last name that is no name keeps a walk in directories.
theorem walkNames_kept_still {way : Way} {name : Text} (links : Nat) (hleads : way.Leads tree)
    (hinside : tree.kind? way.place = some .directory)
    (hname : (name.isEmpty || name == Path.here) = true ∨ (name == Path.up) = true) :
    ∃ place, tree.walkNames .kept (links + 1) way [name] = .ok (.present place) := by
  rw [walkNames, advance_inside hleads hinside (by decide)]
  by_cases hkept : (name.isEmpty || name == Path.here) = true
  · rw [if_pos hkept]
    exact ⟨way.place, rfl⟩
  · rw [if_neg hkept, if_pos (hname.resolve_left hkept)]
    exact ⟨Way.place way.tail, rfl⟩

/-- Where a path leads before its last name, and the step that its last name makes from there. -/
theorem Leads.last {goal : Place} (h : tree.Leads workDir path goal) :
    ∃ front parent before stride links, Text.splitOn '/' path = front ++ [Path.baseName path]
      ∧ before ≤ maxLinks ∧ tree.Route (startOf workDir path) front before parent
      ∧ tree.kind? parent = some .directory
      ∧ tree.stride? parent (Path.baseName path) = some stride
      ∧ tree.Route stride.place (stride.ahead ++ []) links goal := by
  rcases h.route with ⟨used, hused, hroute⟩
  rcases Path.splitOn_baseName path with ⟨front, hsplit⟩
  rcases hroute.split front [Path.baseName path] hsplit with
    ⟨parent, before, after, hfront, hback, hlinks⟩
  cases hback with
  | step _ _ _ stride links _ hstride hrest =>
      exact ⟨front, parent, before, stride, links, hsplit, by omega, hfront,
        stride?_directory parent _ stride hstride, hstride, hrest⟩

/-- A path that leads somewhere is not missing its last name, whether or not a link there is
    followed. -/
theorem Leads.walk_kept {goal : Place} (h : tree.Leads workDir path goal) :
    ∃ place, tree.walk workDir .kept path = .ok (.present place) := by
  rcases h.last with
    ⟨front, middle, before, stride, _, hsplit, hbefore, hfront, hmiddle, hstride, -⟩
  rw [← startWay_place workDir path h.start] at hfront
  -- What is no name leads to the directory itself or to the one above it.
  have hstill : ((Path.baseName path).isEmpty || Path.baseName path == Path.here) = true
      ∨ (Path.baseName path == Path.up) = true →
      ∃ place, tree.walk workDir .kept path = .ok (.present place) := by
    intro hname
    rcases walkNames_of_route hfront .kept _ (maxLinks + 1) [Path.baseName path] rfl
      (tree.startWay_leads workDir path) (by decide) (fun _ => List.cons_ne_nil _ _)
      (by omega) with ⟨further, hfurther, hplace, hwalk⟩
    rw [← hplace] at hmiddle
    rcases walkNames_kept_still (maxLinks - before) hfurther hmiddle hname with ⟨place, hend⟩
    refine ⟨place, (walk_eq_ok_iff workDir .kept path _).mpr ⟨h.admitted, ?_⟩⟩
    rw [hsplit, hwalk, Nat.succ_sub hbefore]
    exact hend
  rcases stride?_cases middle _ stride hstride with
    ⟨hkept, _⟩ | ⟨_, hup, _⟩ | ⟨hkept, hup, hshort, hchild⟩
  · exact hstill (Or.inl hkept)
  · exact hstill (Or.inr hup)
  · have hname := Path.proper_of_moves _ (by rw [hkept]; exact Bool.false_ne_true)
      (by rw [hup]; exact Bool.false_ne_true) (Path.slash_not_mem_baseName path)
    have hthere : ∃ kind, tree.kind? (middle ++ [Path.baseName path]) = some kind := by
      rcases hchild with ⟨target, hlink, -⟩ | ⟨kind, hkind, -⟩
      · exact ⟨_, hlink⟩
      · exact ⟨kind, hkind⟩
    rcases hthere with ⟨kind, hkind⟩
    refine ⟨middle ++ [Path.baseName path], (walk_kept_iff workDir path front _ _ hname
      hsplit).mpr ⟨h.admitted, before, middle, hbefore, hfront, hmiddle, hshort, ?_⟩⟩
    rw [hkind]

/-- A directory that a path leads to is not made anew. -/
theorem Leads.makeDirectories {directory : FilePath} {goal : Place}
    (h : tree.Leads workDir directory.text goal) (hgoal : tree.kind? goal = some .directory) :
    tree.makeDirectories refusals workDir directory = (tree, .ok ()) := by
  rcases h.walk_kept with ⟨place, hwalk⟩
  have hmake : tree.makeDirectory refusals workDir directory.text
      = (tree, .error (.refused .alreadyExists directory.text none)) := by
    rw [makeDirectory, hwalk]
  have htest : tree.test workDir Entry.isDirectory directory.text = .ok true := by
    rcases Option.map_eq_some_iff.mp hgoal with ⟨entry, hentry, hkind⟩
    rcases Entry.kind_eq_directory entry hkind with ⟨entries, rfl⟩
    rw [test, (find_eq_ok_iff workDir _ goal _).mpr ⟨h.walk, hentry⟩]
    rfl
  have hreverse : Path.write directory.slashes directory.names.reverse.reverse = directory.text :=
    congrArg (Path.write directory.slashes) (List.reverse_reverse _)
  have hroom : maxMissing = (maxMissing - 1) + 1 := rfl
  rw [FileTree.makeDirectories, hroom, makeNames, hreverse, hmake]
  simp only [acceptExisting, htest]

/-! ## The file under the last name -/

/-- The names of the path before its last one lead to a directory, and its last name is one
    that an entry of the directory can have. -/
structure Names (tree : FileTree) (workDir : Place) (path : Text) (parent : Place)
    (name : Text) : Prop where
  start : tree.kind? (startOf workDir path) = some .directory
  admitted : Path.Admitted path
  names : (FilePath.parse path).names = (FilePath.parse path).parent.names ++ [name]
  proper : Path.Proper name
  short : ¬ maxNameBytes < (Utf8.encode name).length
  route : ∃ used, used ≤ maxLinks
    ∧ tree.Route (startOf workDir path) (FilePath.parse path).parent.names used parent
  directory : tree.kind? parent = some .directory

theorem FileAt.not_directory {place : Place} (h : tree.FileAt place) :
    tree.kind? place ≠ some .directory := by
  rcases h with ⟨content, executable, hfile⟩
  rw [hfile]
  simp only [ne_eq, Option.some.injEq, reduceCtorEq, not_false_eq_true]

theorem kind?_dropLast {place : Place} (h : tree.kind? place = some .directory) :
    tree.kind? place.dropLast = some .directory := by
  rcases List.eq_nil_or_concat place with rfl | ⟨front, name, hconcat⟩
  · exact h
  · rw [List.concat_eq_append] at hconcat
    subst hconcat
    rw [List.dropLast_concat]
    exact kind?_above tree front name (by rw [h]; exact Option.some_ne_none _)

/-- A path that leads to a file and is no link names the file. -/
theorem names_of_leads {goal : Place} (h : tree.Leads workDir path goal) (hfile : tree.FileAt goal)
    (hlink : ∀ place, tree.walk workDir .kept path = .ok (.present place) →
      tree.linkAt? place = none) :
    ∃ parent name, goal = parent ++ [name] ∧ tree.Names workDir path parent name := by
  rcases h.last with
    ⟨front, parent, before, stride, _, hsplit, hbefore, hfront, hparent, hstride, hrest⟩
  rcases stride?_cases parent _ stride hstride with
    ⟨_, rfl⟩ | ⟨_, _, rfl⟩ | ⟨hkept, hup, hshort, hchild⟩
  -- A last name that is no name would lead to a directory.
  · cases hrest
    exact absurd hparent hfile.not_directory
  · cases hrest
    exact absurd (kind?_dropLast hparent) hfile.not_directory
  have hname := Path.proper_of_moves _ (by rw [hkept]; exact Bool.false_ne_true)
    (by rw [hup]; exact Bool.false_ne_true) (Path.slash_not_mem_baseName path)
  rcases hchild with ⟨target, htarget, -⟩ | ⟨kind, _, _, rfl⟩
  · -- A link under the last name is where a walk that keeps links ends.
    have hwalk := (walk_kept_iff workDir path front _ (.present (parent ++ [_])) hname
      hsplit).mpr ⟨h.admitted, before, parent, hbefore,
        by rw [startWay_place workDir path h.start]; exact hfront, hparent, hshort,
        by rw [htarget]⟩
    exact absurd htarget ((linkAt?_eq_none_iff tree _).mp (hlink _ hwalk) target)
  · cases hrest
    have hnames : (FilePath.parse path).names
        = front.filter (fun name => !(name.isEmpty || name == Path.here))
          ++ [Path.baseName path] := by
      rw [FilePath.parse, hsplit, List.filter_append, List.filter_singleton, hkept]
      rfl
    refine ⟨parent, Path.baseName path, rfl, h.start, h.admitted, ?_, hname, hshort,
      ⟨before, hbefore, ?_⟩, hparent⟩
    · rw [FilePath.parent, hnames, List.dropLast_concat]
    · rw [FilePath.parent, hnames, List.dropLast_concat]
      exact hfront.filter

namespace Names

variable {parent : Place} {name : Text}

theorem parent_sublist (h : tree.Names workDir path parent name) :
    (FilePath.parse path).parent.names.Sublist (FilePath.parse path).names := by
  rw [h.names]
  exact List.sublist_append_left _ _

theorem no_slash (_ : tree.Names workDir path parent name) :
    ∀ part ∈ (FilePath.parse path).names, '/' ∉ part := fun part hpart =>
  Text.not_mem_of_mem_splitOn '/' path part (Path.mem_splitOn_of_mem_parse path part hpart).1

-- The parts of the path as it is written anew.
theorem splitOn_text (h : tree.Names workDir path parent name) :
    Text.splitOn '/' (FilePath.parse path).text
      = (List.replicate (FilePath.parse path).slashes [] ++ (FilePath.parse path).parent.names)
        ++ [name] := by
  have hne : (FilePath.parse path).names ≠ [] := by
    rw [h.names]
    exact List.append_ne_nil_of_right_ne_nil _ (List.cons_ne_nil _ _)
  rw [FilePath.text, Path.splitOn_write_of_ne_nil _ _ hne h.no_slash, List.append_assoc]
  congr 1
  exact h.names

theorem baseName_text (h : tree.Names workDir path parent name) :
    Path.baseName (FilePath.parse path).text = name := by
  rcases Path.splitOn_baseName (FilePath.parse path).text with ⟨front, hsplit⟩
  exact (List.append_singleton_inj.mp (hsplit.symm.trans h.splitOn_text)).2

/-- The path written anew leads to what is under the name, even to a link. -/
theorem walk_kept {kind : Entry.Kind} (h : tree.Names workDir path parent name)
    (hkind : tree.kind? (parent ++ [name]) = some kind) :
    tree.walk workDir .kept (FilePath.parse path).text = .ok (.present (parent ++ [name])) := by
  have hstart : startOf workDir (FilePath.parse path).text = startOf workDir path :=
    startOf_write workDir path _ (List.Sublist.refl _)
  have hinside : tree.kind? (startOf workDir (FilePath.parse path).text) = some .directory := by
    rw [hstart]
    exact h.start
  rcases h.route with ⟨used, hused, hroute⟩
  refine (walk_kept_iff workDir _ _ name _ h.proper h.splitOn_text).mpr
    ⟨Path.admitted_write h.admitted _ (List.Sublist.refl _), used, parent, hused, ?_, h.directory,
      h.short, by rw [hkind]⟩
  rw [startWay_place workDir _ hinside, hstart, route_replicate_append _ _ _ _ _ h.start]
  exact hroute

/-- No directory is missing above the name. -/
theorem makeDirectories (h : tree.Names workDir path parent name) :
    tree.makeDirectories refusals workDir (FilePath.parse path).parent = (tree, .ok ()) := by
  rcases h.route with ⟨used, hused, hroute⟩
  have hleads : tree.Leads workDir (FilePath.parse path).parent.text parent :=
    leads_write h.start h.admitted h.parent_sublist hused hroute
  exact hleads.makeDirectories h.directory

/-- The path leads where it did when a file was put where nothing was. -/
theorem filled {after : FileTree} {place : Place} {content : Bytes}
    (h : tree.Names workDir path parent name) (hfilled : Filled tree after place content)
    (hfree : tree.kind? place = none) : after.Names workDir path parent name := by
  have hne : ∀ other, tree.kind? other = some .directory → other ≠ place := by
    rintro other hother rfl
    exact absurd (hfree.symm.trans hother) (Option.some_ne_none _).symm
  have hdead : DeadEnds tree after (· = place) := by
    refine ⟨fun other hother => (hfilled.same other hother).symm, ?_, ?_⟩
    · rintro other rfl
      rw [hfree]
      exact (Option.some_ne_none _).symm
    · rintro other target rfl
      rw [hfree]
      exact (Option.some_ne_none _).symm
  rcases h.route with ⟨used, hused, hroute⟩
  refine ⟨?_, h.admitted, h.names, h.proper, h.short,
    ⟨used, hused, hroute.transfer hdead (hne parent h.directory)⟩, ?_⟩
  · rw [hfilled.same _ (hne _ h.start), h.start]
  · rw [hfilled.same _ (hne _ h.directory), h.directory]

end Names

-- Nothing is below a file.
theorem FileAt.not_above {place : Place} (h : tree.FileAt place) (rest : Place)
    (hrest : rest ≠ []) : tree.kind? (place ++ rest) = none := by
  rcases h with ⟨content, executable, hfile⟩
  cases rest with
  | nil => exact absurd rfl hrest
  | cons name rest =>
      rw [kind?, entry?, Entry.at?_append]
      have hentry := entry?_eq_file tree place content executable hfile
      unfold entry? at hentry
      rw [hentry]
      rfl

namespace Names

variable {parent : Place} {name : Text}

/-- Nothing but the system stops a temporary file from being moved over the file under the
    name. -/
theorem move (h : tree.Names workDir path parent name) (hfile : tree.FileAt (parent ++ [name]))
    (source : Temporary) (bytes : Bytes)
    (hsource : tree.temporaryFor refusals workDir (FilePath.parse path) = .ok source)
    (hadmits : refusals.cause? (tree.put source.place (.file bytes false))
      (.move source.place (parent ++ [name])) = none) :
    ∃ final, (tree.put source.place (.file bytes false)).move refusals workDir source
        (FilePath.parse path).text = (final, .ok ()) := by
  rcases temporaryFor_free tree workDir _ source hsource with
    ⟨beside, free, hplace, hbeside, hfree, -⟩
  have hput := Filled.of_put hbeside hfree bytes
  have hwritten := h.filled hput hfree
  have hgoal : parent ++ [name] ≠ beside ++ [free] := by
    rcases hfile with ⟨content, executable, hkind⟩
    rintro heq
    rw [heq, hfree] at hkind
    exact absurd hkind (Option.some_ne_none _).symm
  have hsame := hput.same _ hgoal
  have hwalk : (tree.put (beside ++ [free]) (.file bytes false)).walk workDir .kept
      (FilePath.parse path).text = .ok (.present (parent ++ [name])) := by
    rcases hfile with ⟨content, executable, hkind⟩
    exact hwritten.walk_kept (hsame.trans hkind)
  have hlast : ¬ (name.isEmpty || name == Path.here || name == Path.up) = true := by
    rw [Bool.or_eq_true, not_or, h.proper.kept]
    exact ⟨Bool.false_ne_true, h.proper.not_up⟩
  -- The directory of the temporary file is not below the file.
  have hbelow : ¬ (parent ++ [name]).isPrefixOf (beside ++ [free]) = true := by
    rw [List.isPrefixOf_iff_prefix, List.prefix_concat_iff, not_or]
    refine ⟨hgoal, ?_⟩
    rintro ⟨rest, rfl⟩
    by_cases hrest : rest = []
    · rw [hrest, List.append_nil] at hbeside
      exact hfile.not_directory hbeside
    · rw [hfile.not_above rest hrest] at hbeside
      exact absurd hbeside (Option.some_ne_none _).symm
  have hdirectory : ¬ isDirectoryAt (tree.put (beside ++ [free]) (.file bytes false))
      (parent ++ [name]) = true := by
    rw [isDirectoryAt_iff, hsame]
    exact hfile.not_directory
  rw [hplace] at hadmits ⊢
  unfold FileTree.move
  simp only [hwalk, Reached.place, h.baseName_text, hlast, hplace, hbelow, hdirectory,
    hadmits, entry?_put_self]
  exact ⟨_, rfl⟩

/-- When the file under the name was replaced, it has the new content and nothing else has
    changed. -/
theorem replaced {final : FileTree} (h : tree.Names workDir path parent name)
    (hfile : tree.FileAt (parent ++ [name])) (bytes : Bytes)
    (hreplace : tree.replaceFile refusals workDir (FilePath.parse path) (some bytes)
      = (final, .ok ())) : Filled tree final (parent ++ [name]) bytes := by
  rcases replaceFile_steps hreplace with ⟨made, source, content, hcontent, hmade, hsource, hmove⟩
  rw [h.makeDirectories, Prod.mk.injEq] at hmade
  rw [Option.some.injEq] at hcontent
  rcases hmade with ⟨rfl, -⟩
  subst hcontent
  rcases temporaryFor_free tree workDir _ source hsource with
    ⟨beside, free, hplace, hbeside, hfree, -⟩
  rw [hplace] at hmove
  rcases move_puts workDir source _ hplace hbeside hfree hmove with
    ⟨reached, hreached, -, hfilled, -⟩
  rcases hfile with ⟨content, executable, hkind⟩
  rw [h.walk_kept hkind, Except.ok.injEq] at hreached
  rwa [← hreached] at hfilled

/-- The file under the name is replaced when a temporary file can be made for it and the system
    refuses nothing. -/
theorem replaceFile (h : tree.Names workDir path parent name)
    (hfile : tree.FileAt (parent ++ [name])) (bytes : Bytes) (source : Temporary)
    (hsource : tree.temporaryFor refusals workDir (FilePath.parse path) = .ok source)
    (hadmits : refusals.Admits fun _ => True) :
    ∃ final, tree.replaceFile refusals workDir (FilePath.parse path) (some bytes)
      = (final, .ok ()) := by
  rcases h.move hfile source bytes hsource (hadmits _ _ trivial) with ⟨final, hmove⟩
  have hfill : tree.fill refusals source (some bytes)
      = (tree.put source.place (.file bytes false), .ok ()) := by
    unfold fill fillFile
    simp only [hadmits _ _ trivial]
  unfold FileTree.replaceFile
  simp only [h.makeDirectories, hsource, hfill, hmove]
  exact ⟨final, rfl⟩

end Names

/-- A file with another content changes nothing for a walk. -/
theorem Filled.refills {after : FileTree} {place : Place} {content : Bytes}
    (h : Filled tree after place content) (hfile : tree.FileAt place) : tree.Refills after := by
  intro other
  by_cases hother : other = place
  · rw [hother]
    exact Or.inr (Or.inr ⟨hfile, _, _, h.file⟩)
  · exact Or.inl (h.same other hother)

end FileTree

end QueryDesk
