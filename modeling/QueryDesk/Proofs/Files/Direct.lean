import QueryDesk.Proofs.Files.Directory
import QueryDesk.Proofs.Files.Frame

/-!
# Places that are their own path

A route may go back, through links, and past names that say nothing, and still
the place it ends at is reached by its own names alone, through no link at all.
So the path that writes a place leads to it. This is what makes the path through
no link a name for the place, and not one more way to write the path it came from.

The path a text writes drops empty names and dots. These do not move, so the text
and the path written anew lead to the same place.

## Main definitions

* `Path.Plain`: A name between slashes.
* `FileTree.Direct`: A place reached by its own names, through no link.
* `Entry.NoNul`, `FileTree.NoNul`: No link has a target that is no path.

## Theorems

* `Route.direct`: A route from a place reached so ends at another one.
* `route_of_walk`: A walk along any path that arrives has followed a route.
* `route_write`: A path written from some names of another one leads along them.
* `route_parse`: The path written anew leads to the same place.
* `find_noLink`: Asking for a path on which no link is meets no loop.
* `find_direct`: Nor does asking for the path of such a place.
* `Direct.walk_kept`: The path of a file that is reached so leads to it.
-/

namespace QueryDesk

namespace Path

/-- A name between slashes, which can be part of a path. -/
structure Plain (name : Text) : Prop where
  no_slash : '/' ∉ name
  no_nul : Char.ofNat 0 ∉ name

end Path

theorem Path.plain_splitOn (path : Text) (h : Char.ofNat 0 ∉ path) :
    ∀ name ∈ Text.splitOn '/' path, Plain name := fun name hname =>
  ⟨Text.not_mem_of_mem_splitOn '/' path name hname,
    fun hnul => h (Text.mem_of_mem_splitOn '/' _ path name hname hnul)⟩

namespace Entry

/-- No link at or below the entry has a target with a NUL character. -/
def NoNul (entry : Entry) : Prop :=
  ∀ place target, entry.kindAt? place = some (.link target) → Char.ofNat 0 ∉ target

theorem noNul_file (content : Bytes) (executable : Bool) : (file content executable).NoNul := by
  intro place target h
  cases place with
  | nil => exact absurd h (by simp only [kindAt?, at?, kind, Option.map_some, Option.some.injEq,
      reduceCtorEq, not_false_eq_true])
  | cons name rest => exact absurd h (by simp only [kindAt?, at?, entries, Table.get?,
      Option.map_none, reduceCtorEq, not_false_eq_true])

theorem noNul_link (target : Text) (h : Char.ofNat 0 ∉ target) : (link target).NoNul := by
  intro place other hother
  cases place with
  | nil =>
      simp only [kindAt?, at?, kind, Option.map_some, Option.some.injEq, Kind.link.injEq] at hother
      rwa [← hother]
  | cons name rest => exact absurd hother (by simp only [kindAt?, at?, entries, Table.get?,
      Option.map_none, reduceCtorEq, not_false_eq_true])

theorem noNul_directory (entries : Table Entry) (h : ∀ entry ∈ entries, entry.2.NoNul) :
    (directory entries).NoNul := by
  intro place target hlink
  cases place with
  | nil => exact absurd hlink (by simp only [kindAt?, at?, kind, Option.map_some,
      Option.some.injEq, reduceCtorEq, not_false_eq_true])
  | cons name rest =>
      rw [kindAt?_directory_cons] at hlink
      rcases Option.bind_eq_some_iff.mp hlink with ⟨child, hget, hchild⟩
      exact h (name, child) (Table.mem_of_get? name child entries hget) rest target hchild

end Entry

namespace FileTree

variable {tree : FileTree}

/-- No link of the tree has a target with a NUL character. -/
def NoNul (tree : FileTree) : Prop :=
  tree.root.NoNul

/-- The place is reached by its own names, through no link. -/
structure Direct (tree : FileTree) (place : Place) : Prop where
  proper : ∀ name ∈ place, Path.Proper name ∧ Char.ofNat 0 ∉ name
  route : tree.Route [] place 0 place

theorem direct_root (tree : FileTree) : tree.Direct [] :=
  ⟨fun _ h => absurd h List.not_mem_nil, .arrived []⟩

-- A proper name that leads on through no link is the last one of the place it leads to.
theorem stride?_proper_place (place : Place) (name : Text) (stride : Stride)
    (hname : Path.Proper name) (h : tree.stride? place name = some stride)
    (hlinks : stride.links = 0) : stride.place = place ++ [name] ∧ stride.ahead = []
      ∧ ¬ maxNameBytes < (Utf8.encode name).length := by
  rcases stride?_cases place name stride h with
    ⟨hkept, _⟩ | ⟨_, hup, _⟩ | ⟨_, _, hshort, ⟨_, _, rfl⟩ | ⟨_, _, _, rfl⟩⟩
  · exact absurd (hname.kept.symm.trans hkept) Bool.false_ne_true
  · exact absurd hup hname.not_up
  · exact absurd hlinks Nat.one_ne_zero
  · exact ⟨rfl, rfl, hshort⟩

-- The names before the last one lead to a directory that is reached so too.
theorem Direct.front {front : Place} {name : Text} (h : tree.Direct (front ++ [name])) :
    tree.Direct front ∧ tree.kind? front = some .directory
      ∧ ¬ maxNameBytes < (Utf8.encode name).length := by
  rcases h.route.split front [name] rfl with ⟨middle, before, after, hfront, hback, hlinks⟩
  have hname := (h.proper name (List.mem_append_right _ (List.mem_singleton_self name))).1
  have hbefore : before = 0 := by omega
  have hafter : after = 0 := by omega
  cases hback with
  | step _ _ _ stride links _ hstride hrest =>
      rcases stride?_proper_place middle name stride hname hstride (by omega) with
        ⟨hplace, hahead, hshort⟩
      rw [hahead, List.nil_append, hplace] at hrest
      generalize hgoal : front ++ [name] = goal at hrest
      cases hrest
      have hmiddle : front = middle := List.append_cancel_right hgoal
      rw [← hmiddle] at hfront hstride
      rw [hbefore] at hfront
      exact ⟨⟨fun n hn => h.proper n (List.mem_append_left _ hn), hfront⟩,
        stride?_directory front name stride hstride, hshort⟩

theorem Direct.dropLast {place : Place} (h : tree.Direct place) : tree.Direct place.dropLast := by
  rcases List.eq_nil_or_concat place with rfl | ⟨front, name, hconcat⟩
  · exact h
  · rw [List.concat_eq_append] at hconcat
    subst hconcat
    rw [List.dropLast_concat]
    exact h.front.1

/-- From a place reached by its own names a route ends at another such place. -/
theorem Route.direct {place goal : Place} {names : List Text} {links : Nat}
    (h : tree.Route place names links goal) (hplace : tree.Direct place)
    (hnames : ∀ name ∈ names, Path.Plain name) (htargets : tree.NoNul) : tree.Direct goal := by
  induction h with
  | arrived place => exact hplace
  | step place name names stride links goal hstride _ ih =>
      have hname := hnames name List.mem_cons_self
      have hrest : ∀ n ∈ names, Path.Plain n := fun n hn => hnames n (List.mem_cons_of_mem name hn)
      rcases stride?_cases place name stride hstride with
        ⟨_, rfl⟩ | ⟨_, _, rfl⟩ |
          ⟨hkept, hup, hshort, ⟨target, hlink, rfl⟩ | ⟨kind, hkind, hlink, rfl⟩⟩
      · exact ih hplace hrest
      · exact ih hplace.dropLast hrest
      · refine ih ?_ fun n hn => ?_
        · change tree.Direct (if Path.isAbsolute target then [] else place)
          split
          · exact direct_root tree
          · exact hplace
        · rcases List.mem_append.mp hn with hn | hn
          · exact Path.plain_splitOn target (htargets _ target hlink) n hn
          · exact hrest n hn
      · have hproper := Path.proper_of_moves name (by rw [hkept]; exact Bool.false_ne_true)
          (by rw [hup]; exact Bool.false_ne_true) hname.no_slash
        refine ih ⟨fun n hn => ?_, ?_⟩ hrest
        · rcases List.mem_append.mp hn with hn | hn
          · exact hplace.proper n hn
          · rw [List.mem_singleton.mp hn]
            exact ⟨hproper, hname.no_nul⟩
        · exact hplace.route.enter hproper (stride?_directory place name _ hstride) hshort
            hkind hlink

/-! ## Walks along any path -/

theorem wayTo_place (place : Place) (entry found : Entry) (way : Way)
    (h : entry.at? place = some found) : (wayTo place entry way).place = way.place ++ place := by
  induction place generalizing entry way with
  | nil => exact (List.append_nil _).symm
  | cons name rest ih =>
      rw [Entry.at?] at h
      rw [wayTo]
      cases hchild : Table.get? name entry.entries with
      | none =>
          rw [hchild] at h
          exact absurd h (Option.some_ne_none found).symm
      | some child =>
          rw [hchild] at h
          simp only
          rw [ih child _ h, Way.place_cons, List.append_assoc]
          rfl

/-- Where a walk along a path begins. -/
def startOf (workDir : Place) (path : Text) : Place :=
  if Path.isAbsolute path then [] else workDir

theorem kind?_startOf {workDir : Place} (h : tree.kind? workDir = some .directory) (path : Text) :
    tree.kind? (startOf workDir path) = some .directory := by
  unfold startOf
  split
  · exact tree.kind?_root
  · exact h

-- The way a walk along a path begins on leads to where it begins.
theorem startWay_place (workDir : Place) (path : Text)
    (hstart : tree.kind? (startOf workDir path) = some .directory) :
    (tree.startWay workDir path).place = startOf workDir path := by
  unfold startWay
  by_cases habsolute : Path.isAbsolute path = true
  · rw [startOf, if_pos habsolute, if_pos habsolute]
    rfl
  · rw [startOf, if_neg habsolute] at hstart ⊢
    rw [if_neg habsolute]
    rcases Option.map_eq_some_iff.mp hstart with ⟨entry, hentry, _⟩
    exact wayTo_place workDir _ entry [] hentry

/-- A walk that arrives has followed a route along the parts of the path. -/
theorem route_of_walk (workDir : Place) (path : Text) (goal : Place)
    (hwork : tree.kind? workDir = some .directory)
    (h : tree.walk workDir .followed path = .ok (.present goal)) :
    path ≠ [] ∧ Char.ofNat 0 ∉ path ∧ ∃ used, used ≤ maxLinks
      ∧ tree.Route (startOf workDir path) (Text.splitOn '/' path) used goal := by
  rcases (walk_followed_iff workDir path goal).mp h with ⟨hadmitted, hroute⟩
  rw [startWay_place workDir path (kind?_startOf hwork path)] at hroute
  refine ⟨?_, fun hmem => ?_, hroute⟩
  · rintro rfl
    exact absurd hadmitted.notEmpty (Bool.false_ne_true ∘ Eq.symm)
  · exact absurd (hadmitted.noNul.symm.trans (List.elem_iff.mpr hmem)) Bool.false_ne_true

/-- A route along the parts of a path is followed by a walk. -/
theorem walk_of_route (workDir : Place) (path : Text) (goal : Place) (used : Nat)
    (hstart : tree.kind? (startOf workDir path) = some .directory) (hadmitted : Path.Admitted path)
    (hused : used ≤ maxLinks)
    (h : tree.Route (startOf workDir path) (Text.splitOn '/' path) used goal) :
    tree.walk workDir .followed path = .ok (.present goal) := by
  rw [← startWay_place workDir path hstart] at h
  exact (walk_followed_iff workDir path goal).mpr ⟨hadmitted, used, hused, h⟩

/-! ## The path a text writes -/

-- Empty names and dots do not move.
theorem Route.filter {place goal : Place} {names : List Text} {links : Nat}
    (h : tree.Route place names links goal) :
    tree.Route place (names.filter fun name => !(name.isEmpty || name == Path.here))
      links goal := by
  induction names generalizing place links with
  | nil => exact h
  | cons name names ih =>
      rcases h.split [name] names rfl with ⟨middle, before, after, hfront, hback, rfl⟩
      by_cases hkept : (name.isEmpty || name == Path.here) = true
      · rw [List.filter_cons_of_neg (by rw [hkept]; decide)]
        cases hfront with
        | step _ _ _ stride links _ hstride hrest =>
            rcases stride?_cases place name stride hstride with
              ⟨_, rfl⟩ | ⟨hmoves, _⟩ | ⟨hmoves, _⟩
            · cases hrest
              rw [Nat.add_zero, Nat.zero_add]
              exact ih hback
            · exact absurd (hmoves.symm.trans hkept) Bool.false_ne_true
            · exact absurd (hmoves.symm.trans hkept) Bool.false_ne_true
      · rw [List.filter_cons_of_pos (by rw [Bool.not_eq_true] at hkept; rw [hkept]; rfl)]
        exact hfront.append (ih hback)

end FileTree

namespace Path

-- The names of a path that a text writes are parts of the text.
theorem mem_splitOn_of_mem_parse (path name : Text) (h : name ∈ (FilePath.parse path).names) :
    name ∈ Text.splitOn '/' path ∧ name ≠ [] := by
  rcases List.mem_filter.mp h with ⟨hmem, hkept⟩
  refine ⟨hmem, fun hnil => ?_⟩
  rw [hnil] at hkept
  exact absurd hkept (by decide)

theorem leadingSlashes_of_relative (path : Text) (h : isAbsolute path = false) :
    leadingSlashes path = 0 := by
  rw [leadingSlashes, takeWhile_of_relative path h]
  rfl

-- A relative path is written anew as a relative one.
theorem isAbsolute_write_zero (names : List Text) (h : ∀ name ∈ names, '/' ∉ name ∧ name ≠ []) :
    isAbsolute (write 0 names) = false := by
  cases names with
  | nil => rfl
  | cons name names =>
      have hname := h name List.mem_cons_self
      cases name with
      | nil => exact absurd rfl hname.2
      | cons c rest =>
          rcases Text.join_cons '/' c rest names with ⟨tail, hjoin⟩
          have htail : write 0 ((c :: rest) :: names) = c :: tail := hjoin
          have hc : c ≠ '/' := fun heq => hname.1 (heq ▸ List.mem_cons_self)
          rw [htail, isAbsolute, List.head?_cons]
          exact beq_eq_false_iff_ne.mpr fun heq => hc (Option.some.inj heq)

/-- A path written from names of another one is absolute when that one is. -/
theorem isAbsolute_write_parse (path : Text) (names : List Text)
    (h : names.Sublist (FilePath.parse path).names) :
    isAbsolute (write (FilePath.parse path).slashes names) = isAbsolute path := by
  cases habsolute : isAbsolute path with
  | true =>
      have hslashes := leadingSlashes_of_isAbsolute path habsolute
      exact isAbsolute_write (leadingSlashes path) names (by omega)
  | false =>
      rw [show (FilePath.parse path).slashes = 0 from leadingSlashes_of_relative path habsolute]
      refine isAbsolute_write_zero names fun name hname => ?_
      rcases mem_splitOn_of_mem_parse path name (h.subset hname) with ⟨hmem, hne⟩
      exact ⟨Text.not_mem_of_mem_splitOn '/' path name hmem, hne⟩

theorem no_nul_write (slashes : Nat) (names : List Text) (h : ∀ name ∈ names, Char.ofNat 0 ∉ name) :
    Char.ofNat 0 ∉ write slashes names := by
  intro hmem
  unfold write at hmem
  split at hmem
  · exact absurd hmem (by decide)
  rcases List.mem_append.mp hmem with hmem | hmem
  · exact absurd (List.eq_of_mem_replicate hmem) (by decide)
  · rcases Text.mem_join ['/'] _ names hmem with hslash | ⟨name, hname, hnul⟩
    · exact absurd hslash (by decide)
    · exact h name hname hnul

theorem no_nul_parse (path : Text) (h : Char.ofNat 0 ∉ path) :
    Char.ofNat 0 ∉ (FilePath.parse path).text :=
  no_nul_write _ _ fun name hname =>
    (plain_splitOn path h name (mem_splitOn_of_mem_parse path name hname).1).no_nul

end Path

namespace FileTree

variable {tree : FileTree}

/-- A path written from names of another path begins where that one does. -/
theorem startOf_write (workDir : Place) (path : Text) (names : List Text)
    (h : names.Sublist (FilePath.parse path).names) :
    startOf workDir (Path.write (FilePath.parse path).slashes names) = startOf workDir path := by
  rw [startOf, startOf, Path.isAbsolute_write_parse path names h]

/-- A route along names of a path is one along the path that is written from them. -/
theorem route_write (workDir : Place) (path : Text) (names : List Text) (links : Nat) (goal : Place)
    (hnames : names.Sublist (FilePath.parse path).names)
    (hstart : tree.kind? (startOf workDir path) = some .directory)
    (h : tree.Route (startOf workDir path) names links goal) :
    tree.Route (startOf workDir (Path.write (FilePath.parse path).slashes names))
      (Text.splitOn '/' (Path.write (FilePath.parse path).slashes names)) links goal := by
  have hslash : ∀ name ∈ names, '/' ∉ name := fun name hname =>
    Text.not_mem_of_mem_splitOn '/' path name
      (Path.mem_splitOn_of_mem_parse path name (hnames.subset hname)).1
  rw [startOf_write workDir path names hnames]
  generalize (FilePath.parse path).slashes = slashes
  by_cases hnone : names = []
  · subst hnone
    cases slashes with
    | zero =>
        -- The path of nothing is a dot, which does not move.
        cases h
        refine Route.step _ Path.here [] ⟨0, _, []⟩ 0 _ ?_ (.arrived _)
        rw [stride?, hstart]
        rfl
    | succ slashes =>
        rw [Path.splitOn_write (slashes + 1) [] (Nat.succ_pos slashes) hslash,
          route_replicate_append _ _ _ _ _ hstart]
        exact (route_replicate_append _ _ 1 links [] hstart).mpr h
  · rw [Path.splitOn_write_of_ne_nil slashes names hnone hslash,
      route_replicate_append _ _ _ _ _ hstart]
    exact h

/-- The path that a text writes, written anew, leads to the same place. -/
theorem route_parse (workDir : Place) (path : Text) (links : Nat) (goal : Place)
    (h : tree.Route (startOf workDir path) (Text.splitOn '/' path) links goal) :
    tree.Route (startOf workDir (FilePath.parse path).text)
      (Text.splitOn '/' (FilePath.parse path).text) links goal := by
  have hstart : tree.kind? (startOf workDir path) = some .directory :=
    h.directory (List.splitOnP_ne_nil _ _ <| (Text.splitOn_eq '/' path).symm.trans ·)
  exact route_write workDir path _ links goal (List.Sublist.refl _) hstart h.filter

/-! ## The path of a place -/

theorem Direct.names {place : Place} (h : tree.Direct place) : ∀ name ∈ place, Path.Proper name :=
  fun name hname => (h.proper name hname).1

theorem Direct.normal {place : Place} (h : tree.Direct place) :
    Path.Normal (Path.ofPlace place) :=
  ⟨1, place, Or.inl rfl, h.names, rfl⟩

theorem Direct.no_nul {place : Place} (h : tree.Direct place) :
    Char.ofNat 0 ∉ Path.ofPlace place :=
  Path.no_nul_write 1 place fun name hname => (h.proper name hname).2

theorem Direct.refill {after : FileTree} {place : Place} (h : tree.Direct place)
    (hrefills : tree.Refills after) : after.Direct place :=
  ⟨h.proper, h.route.refill hrefills⟩

theorem NoNul.refill {after : FileTree} (h : tree.NoNul) (hrefills : tree.Refills after) :
    after.NoNul := by
  intro place target hlink
  exact h place target (hrefills.not_new hlink)

-- No link is on the way to a place that its own names lead to, nor at it.
theorem Direct.noLink {place : Place} (h : tree.Direct place) :
    ∀ front, front <+: place → tree.linkAt? front = none := by
  induction place using List.reverseRecOn with
  | nil =>
      intro front hfront
      rw [List.prefix_nil.mp hfront]
      rfl
  | append_singleton before name ih =>
      intro front hfront
      rcases h.front with ⟨hbefore, hdirectory, hshort⟩
      rcases List.prefix_concat_iff.mp hfront with rfl | hfront
      · refine (linkAt?_eq_none_iff tree _).mpr fun target hlink => ?_
        -- A link at the last name would be one more on the route, which has none.
        have hname := h.names name (List.mem_append_right _ (List.mem_singleton_self name))
        rcases h.route.split before [name] rfl with ⟨middle, _, links, hfront, hback, hlinks⟩
        rcases hfront.deterministic hbefore.route with ⟨rfl, rfl⟩
        cases hback with
        | step _ _ _ stride links _ hstride _ =>
            rw [stride?_proper _ name hname hdirectory hshort, hlink] at hstride
            rw [← Option.some.inj hstride] at hlinks
            simp only at hlinks
            omega
      · exact ih hbefore front hfront

/-- A walk along names on which no link is never runs out of links to follow. -/
theorem walkNames_noLink (links : Nat) (way : Way) (names : List Text) (hleads : way.Leads tree)
    (hnames : ∀ name ∈ names, Path.Proper name)
    (hfree : ∀ place, place <+: way.place ++ names → tree.linkAt? place = none) :
    tree.walkNames .followed (links + 1) way names ≠ .error .linkLoop := by
  induction names generalizing way with
  | nil =>
      rw [walkNames, advance]
      simp only [ne_eq, reduceCtorEq, not_false_eq_true]
  | cons name rest ih =>
      have hname := hnames name List.mem_cons_self
      by_cases hdirectory : tree.kind? way.place = some .directory
      · rw [walkNames, advance_inside hleads hdirectory (by decide), hname.kept,
          if_neg Bool.false_ne_true, if_neg hname.not_up]
        by_cases hlong : maxNameBytes < (Utf8.encode name).length
        · rw [if_pos hlong]
          simp only [ne_eq, Except.error.injEq, reduceCtorEq, not_false_eq_true]
        rw [if_neg hlong]
        have hahead : (way.place ++ [name]) ++ rest = way.place ++ name :: rest :=
          List.append_assoc _ _ _
        cases hchild : tree.entry? (way.place ++ [name]) with
        | none =>
            cases rest with
            | nil => simp only [List.isEmpty_nil, if_true, ne_eq, reduceCtorEq, not_false_eq_true]
            | cons second more =>
                simp only [List.isEmpty_cons, Bool.false_eq_true, if_false, ne_eq,
                  Except.error.injEq, reduceCtorEq, not_false_eq_true]
        | some child =>
            have hfurther := ih ((name, child) :: way) ⟨hchild, hleads⟩
              (fun n hn => hnames n (List.mem_cons_of_mem name hn))
              (by rw [Way.place_cons, hahead]; exact hfree)
            rw [walkNames] at hfurther
            cases child with
            | file content executable => exact hfurther
            | directory entries => exact hfurther
            | link target =>
                have hnone := hfree (way.place ++ [name]) ⟨rest, hahead⟩
                rw [linkAt?, hchild] at hnone
                exact absurd hnone (Option.some_ne_none target)
      · rw [walkNames, advance_outside hleads hdirectory]
        simp only [ne_eq, Except.error.injEq, reduceCtorEq, not_false_eq_true]

/-- A path on which no link is can be asked about, whether or not there is anything
    at it: it is no path that cannot be walked, and no loop of links. -/
theorem find_noLink (workDir place : Place)
    (hproper : ∀ name ∈ place, Path.Proper name ∧ Char.ofNat 0 ∉ name)
    (hfree : ∀ front, front <+: place → tree.linkAt? front = none) :
    tree.find workDir (Path.ofPlace place) ≠ .error .notPath
      ∧ ∀ path target, tree.find workDir (Path.ofPlace place)
        ≠ .error (.refused .linkLoop path target) := by
  have hnames : ∀ name ∈ place, Path.Proper name := fun name hname => (hproper name hname).1
  have hnul : ¬ (Path.ofPlace place).elem (Char.ofNat 0) = true := fun hmem =>
    Path.no_nul_write 1 place (fun name hname => (hproper name hname).2) (List.elem_iff.mp hmem)
  have hsplit : Text.splitOn '/' (Path.ofPlace place)
      = [] :: if place.isEmpty then [[]] else place :=
    Path.splitOn_write 1 place Nat.one_pos fun name hname => (hnames name hname).no_slash
  have hwalk : ∀ fault, tree.walk workDir .followed (Path.ofPlace place) = .error fault →
      ∃ cause, fault = .refused cause (Path.ofPlace place) none ∧ cause ≠ .linkLoop := by
    intro fault h
    unfold walk at h
    rw [if_neg hnul] at h
    split at h
    · exact ⟨_, (Except.error.inj h).symm, by decide⟩
    split at h
    · exact ⟨_, (Except.error.inj h).symm, by decide⟩
    simp only at h
    split at h
    · exact absurd h (by simp only [reduceCtorEq, not_false_eq_true])
    · next cause hstopped =>
        refine ⟨cause, (Except.error.inj h).symm, ?_⟩
        rintro rfl
        -- The slash at the start is an empty name, which does not move.
        have habsolute : Path.isAbsolute (Path.ofPlace place) = true :=
          Path.isAbsolute_write 1 place Nat.one_pos
        rw [if_pos habsolute, hsplit] at hstopped
        change tree.walkNames .followed (maxLinks + 1) [] (if place.isEmpty then [[]] else place)
          = _ at hstopped
        cases place with
        | nil => exact absurd hstopped (walkNames_noLink maxLinks [] [] trivial hnames hfree)
        | cons name rest =>
            exact absurd hstopped (walkNames_noLink maxLinks [] _ trivial hnames hfree)
  unfold find
  split
  · next fault hfault =>
      rcases hwalk fault hfault with ⟨cause, rfl, hcause⟩
      exact ⟨by simp only [ne_eq, Except.error.injEq, reduceCtorEq, not_false_eq_true],
        fun path target heq => hcause (FileFault.refused.inj (Except.error.inj heq)).1⟩
  · simp only [ne_eq, Except.error.injEq, FileFault.refused.injEq, reduceCtorEq, false_and,
      not_false_eq_true, implies_true, and_self]
  · split <;>
      simp only [ne_eq, Except.error.injEq, FileFault.refused.injEq, reduceCtorEq, false_and,
        not_false_eq_true, implies_true, and_self]

/-- So can the path of a place that its own names lead to. -/
theorem find_direct (workDir place : Place) (h : tree.Direct place) :
    tree.find workDir (Path.ofPlace place) ≠ .error .notPath
      ∧ ∀ path target, tree.find workDir (Path.ofPlace place)
        ≠ .error (.refused .linkLoop path target) :=
  find_noLink workDir place h.proper h.noLink

/-- The path of a file that its own names lead to is walked to the file, also when
    a link at the last name would be kept. -/
theorem Direct.walk_kept {place : Place} (h : tree.Direct place) (workDir : Place)
    (content : Bytes) (executable : Bool)
    (hkind : tree.kind? place = some (.file content executable))
    (hadmitted : Path.Admitted (Path.ofPlace place)) :
    tree.walk workDir .kept (Path.ofPlace place) = .ok (.present place) := by
  rcases List.eq_nil_or_concat place with rfl | ⟨front, name, hconcat⟩
  · rw [kind?_root] at hkind
    exact absurd hkind (by simp only [Option.some.injEq, reduceCtorEq, not_false_eq_true])
  rw [List.concat_eq_append] at hconcat
  subst hconcat
  rcases h.front with ⟨hfront, hdirectory, hshort⟩
  refine (walk_kept_eq_ok_iff workDir 1 front name _ Nat.one_pos hfront.names
    (h.names name (List.mem_append_right _ (List.mem_singleton_self name)))).mpr
    ⟨hadmitted, 0, front, Nat.zero_le _, hfront.route, hdirectory, hshort, ?_⟩
  rw [hkind]

end FileTree

end QueryDesk
