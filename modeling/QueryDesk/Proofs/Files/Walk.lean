import QueryDesk.Proofs.Files.Route

/-!
# Walks along paths

A path is walked along its parts, an absolute one from the root, whatever the working
directory is, and any other from there. So a walk is a route along the parts, as long as the
text can be a path at all. The slashes that a written path begins with are no names and lead
nowhere else. Asking for a file follows a link at the last name, making or moving one does
not.

## Main definitions

* `Path.Admitted`: A text that can be walked.
* `FileTree.startWay`: The way that a walk along a path begins on.

## Theorems

* `walk_eq_ok_iff`, `walk_absolute_iff`: A walk along a text that can be walked.
* `walk_followed_iff`, `walk_kept_iff`: A walk along any path, as a route.
* `route_splitOn_write`: The slashes of a written path lead nowhere else.
* `walk_eq_present_iff`: A walk along a written path with links followed.
* `walk_kept_eq_ok_iff`: One that keeps a link at the last name.
* `find_eq_ok_iff`: What is found at a path.
* `readBytes_eq_ok_iff`: What is read from a written path.
-/

namespace QueryDesk

/-- A text that can be walked: it holds no NUL character, is not empty and is not
    too long. -/
structure Path.Admitted (path : Text) : Prop where
  noNul : path.elem (Char.ofNat 0) = false
  notEmpty : path.isEmpty = false
  notLong : ¬ FileTree.maxPathBytes ≤ (Utf8.encode path).length

namespace FileTree

variable {tree : FileTree}

/-- The way that a walk along a path begins on: that to the root, or to the working
    directory as far as there is one. -/
def startWay (tree : FileTree) (workDir : Place) (path : Text) : Way :=
  if Path.isAbsolute path then [] else wayTo workDir tree.root []

-- The way from a place to another one below it.
theorem wayTo_leads (place : Place) (entry : Entry) (way : Way) (hleads : way.Leads tree)
    (hentry : tree.entry? way.place = some entry) : (wayTo place entry way).Leads tree := by
  induction place generalizing entry way with
  | nil => exact hleads
  | cons name rest ih =>
      rw [wayTo]
      cases hchild : Table.get? name entry.entries with
      | none => exact hleads
      | some child =>
          have hfound := (entry?_concat hentry name).trans hchild
          refine ih child _ ⟨hfound, hleads⟩ ?_
          rw [Way.place_cons]
          exact hfound

theorem startWay_leads (tree : FileTree) (workDir : Place) (path : Text) :
    (tree.startWay workDir path).Leads tree := by
  unfold startWay
  split
  · trivial
  · exact wayTo_leads workDir tree.root [] trivial rfl

theorem startWay_absolute (workDir : Place) {path : Text} (h : Path.isAbsolute path = true) :
    tree.startWay workDir path = [] := if_pos h

/-- A walk along a text that can be walked, from the root or from the working
    directory. -/
theorem walk_eq_ok_iff (workDir : Place) (last : LastName) (path : Text) (reached : Reached) :
    tree.walk workDir last path = .ok reached
      ↔ Path.Admitted path
        ∧ tree.walkNames last (maxLinks + 1) (tree.startWay workDir path)
          (Text.splitOn '/' path) = .ok reached := by
  unfold walk
  by_cases hnul : path.elem (Char.ofNat 0) = true
  · rw [if_pos hnul]
    exact iff_of_false (by simp only [reduceCtorEq, not_false_eq_true])
      fun hok => absurd (hok.1.noNul.symm.trans hnul) Bool.false_ne_true
  rw [if_neg hnul]
  by_cases hempty : path.isEmpty = true
  · rw [if_pos hempty]
    exact iff_of_false (by simp only [reduceCtorEq, not_false_eq_true])
      fun hok => absurd (hok.1.notEmpty.symm.trans hempty) Bool.false_ne_true
  rw [if_neg hempty]
  by_cases hlong : maxPathBytes ≤ (Utf8.encode path).length
  · rw [if_pos hlong]
    exact iff_of_false (by simp only [reduceCtorEq, not_false_eq_true])
      fun hok => hok.1.notLong hlong
  rw [if_neg hlong]
  rw [Bool.not_eq_true] at hnul hempty
  simp only
  rw [← startWay]
  cases hwalk : tree.walkNames last (maxLinks + 1) (tree.startWay workDir path)
    (Text.splitOn '/' path) with
  | error cause => simp only [reduceCtorEq, and_false]
  | ok found => simp only [Except.ok.injEq, Path.Admitted.mk hnul hempty hlong, true_and]

/-- A walk along an absolute path is a walk from the root. -/
theorem walk_absolute_iff (workDir : Place) (last : LastName) (path : Text) (reached : Reached)
    (h : Path.isAbsolute path = true) :
    tree.walk workDir last path = .ok reached
      ↔ Path.Admitted path
        ∧ tree.walkNames last (maxLinks + 1) [] (Text.splitOn '/' path) = .ok reached := by
  rw [walk_eq_ok_iff, startWay_absolute workDir h]

/-- A walk with links followed arrives where a route along the parts of the path does. -/
theorem walk_followed_iff (workDir : Place) (path : Text) (goal : Place) :
    tree.walk workDir .followed path = .ok (.present goal)
      ↔ Path.Admitted path ∧ ∃ used, used ≤ maxLinks
        ∧ tree.Route (tree.startWay workDir path).place (Text.splitOn '/' path) used goal := by
  have hleads := tree.startWay_leads workDir path
  rw [walk_eq_ok_iff]
  refine and_congr_right fun _ => ⟨fun h => ?_, fun h => ?_⟩
  · rw [← List.append_nil (Text.splitOn '/' path)] at h
    rcases route_of_walkNames (maxLinks + 1) _ [] _ hleads (by decide)
      (fun hkept => absurd hkept (by decide)) (Or.inr ⟨goal, rfl⟩) h with
      ⟨used, further, hused, _, hroute, hend⟩
    rw [Nat.succ_sub (Nat.le_of_lt_succ hused), walkNames, advance] at hend
    rw [Reached.present.inj (Except.ok.inj hend)] at hroute
    exact ⟨used, Nat.le_of_lt_succ hused, hroute⟩
  · rcases h with ⟨used, hused, hroute⟩
    rcases walkNames_of_route hroute .followed _ (maxLinks + 1) [] rfl hleads (by decide)
      (fun hkept => absurd hkept (by decide)) (Nat.lt_succ_of_le hused) with
      ⟨further, _, hgoal, hwalk⟩
    rw [List.append_nil] at hwalk
    rw [hwalk, Nat.succ_sub hused, walkNames, advance, ← hgoal]

/-- A walk that keeps a link at the last name: the names before it lead to a directory, and
    the walk ends under the last name in it, whatever is there. -/
theorem walk_kept_iff (workDir : Place) (path : Text) (front : List Text) (name : Text)
    (reached : Reached) (hname : Path.Proper name)
    (hfront : Text.splitOn '/' path = front ++ [name]) :
    tree.walk workDir .kept path = .ok reached
      ↔ Path.Admitted path ∧ ∃ used parent, used ≤ maxLinks
        ∧ tree.Route (tree.startWay workDir path).place front used parent
        ∧ tree.kind? parent = some .directory ∧ ¬ maxNameBytes < (Utf8.encode name).length
        ∧ reached = match tree.kind? (parent ++ [name]) with
          | none => .missing parent name
          | some _ => .present (parent ++ [name]) := by
  have hleads := tree.startWay_leads workDir path
  rw [walk_eq_ok_iff, hfront]
  refine and_congr_right fun _ => ⟨fun h => ?_, fun h => ?_⟩
  · rcases route_of_walkNames (maxLinks + 1) front [name] _ hleads (by decide)
      (fun _ => List.cons_ne_nil _ _) (Or.inl (List.cons_ne_nil _ _)) h with
      ⟨used, further, hused, hfurther, hroute, hend⟩
    rw [Nat.succ_sub (Nat.le_of_lt_succ hused)] at hend
    exact ⟨used, further.place, Nat.le_of_lt_succ hused, hroute,
      (walkNames_kept_iff _ reached hfurther hname).mp hend⟩
  · rcases h with ⟨used, parent, hused, hroute, hend⟩
    rcases walkNames_of_route hroute .kept _ (maxLinks + 1) [name] rfl hleads
      (by decide) (fun _ => List.cons_ne_nil _ _) (Nat.lt_succ_of_le hused) with
      ⟨further, hfurther, hparent, hwalk⟩
    rw [← hparent] at hend
    rw [hwalk, Nat.succ_sub hused]
    exact (walkNames_kept_iff _ reached hfurther hname).mpr hend

-- Empty names at a directory do not move.
theorem route_replicate_append (place goal : Place) (count links : Nat) (names : List Text)
    (hplace : tree.kind? place = some .directory) :
    tree.Route place (List.replicate count [] ++ names) links goal
      ↔ tree.Route place names links goal := by
  induction count with
  | zero => rfl
  | succ count ih =>
      have hstride : tree.stride? place [] = some ⟨0, place, []⟩ := by
        rw [stride?, hplace]
        rfl
      rw [← ih, List.replicate_succ, List.cons_append]
      constructor
      · intro h
        cases h with
        | step _ _ _ stride links _ hfound hrest =>
            rw [hstride] at hfound
            cases hfound
            rwa [Nat.zero_add]
      · intro h
        have hstep := Route.step place [] _ _ links goal hstride h
        rwa [Nat.zero_add] at hstep

/-- The slashes of a written path lead nowhere else. -/
theorem route_splitOn_write (slashes : Nat) (names : List Text) (links : Nat) (goal : Place)
    (hslashes : 0 < slashes) (hnames : ∀ name ∈ names, '/' ∉ name) :
    tree.Route [] (Text.splitOn '/' (Path.write slashes names)) links goal
      ↔ tree.Route [] names links goal := by
  rw [Path.splitOn_write slashes names hslashes hnames,
    route_replicate_append _ _ _ _ _ tree.kind?_root]
  cases names with
  | nil => exact route_replicate_append [] goal 1 links [] tree.kind?_root
  | cons name names => rfl

-- A written path is walked to where its names lead.
theorem walk_eq_present_iff (workDir : Place) (slashes : Nat) (names : List Text) (goal : Place)
    (hslashes : 0 < slashes) (hnames : ∀ name ∈ names, Path.Proper name) :
    tree.walk workDir .followed (Path.write slashes names) = .ok (.present goal)
      ↔ Path.Admitted (Path.write slashes names)
        ∧ ∃ used, used ≤ maxLinks ∧ tree.Route [] names used goal := by
  rw [walk_followed_iff, startWay_absolute workDir (Path.isAbsolute_write slashes names hslashes)]
  exact and_congr_right fun _ => exists_congr fun used => and_congr_right fun _ =>
    route_splitOn_write slashes names used goal hslashes fun name hname =>
      (hnames name hname).no_slash

-- A walk along a written path that keeps a link at the last name.
theorem walk_kept_eq_ok_iff (workDir : Place) (slashes : Nat) (front : List Text) (name : Text)
    (reached : Reached) (hslashes : 0 < slashes) (hfront : ∀ name ∈ front, Path.Proper name)
    (hname : Path.Proper name) :
    tree.walk workDir .kept (Path.write slashes (front ++ [name])) = .ok reached
      ↔ Path.Admitted (Path.write slashes (front ++ [name]))
        ∧ ∃ used parent, used ≤ maxLinks ∧ tree.Route [] front used parent
          ∧ tree.kind? parent = some .directory ∧ ¬ maxNameBytes < (Utf8.encode name).length
          ∧ reached = match tree.kind? (parent ++ [name]) with
            | none => .missing parent name
            | some _ => .present (parent ++ [name]) := by
  have hsplit : Text.splitOn '/' (Path.write slashes (front ++ [name]))
      = (List.replicate slashes [] ++ front) ++ [name] := by
    rw [Path.splitOn_write slashes _ hslashes, if_neg, List.append_assoc]
    · simp only [List.isEmpty_iff, List.append_eq_nil_iff, List.cons_ne_self, and_false,
        not_false_eq_true]
    · intro n hn
      rcases List.mem_append.mp hn with hn | hn
      · exact (hfront n hn).no_slash
      · rw [List.mem_singleton.mp hn]
        exact hname.no_slash
  rw [walk_kept_iff workDir _ _ name reached hname hsplit,
    startWay_absolute workDir (Path.isAbsolute_write slashes _ hslashes)]
  exact and_congr_right fun _ => exists_congr fun used => exists_congr fun parent =>
    and_congr_right fun _ => and_congr_left fun _ =>
      route_replicate_append _ _ _ _ _ tree.kind?_root

-- Asking for what is at a path finds an entry just where the walk ends at one.
theorem find_eq_ok_iff (workDir : Place) (path : Text) (place : Place) (entry : Entry) :
    tree.find workDir path = .ok (place, entry)
      ↔ tree.walk workDir .followed path = .ok (.present place)
        ∧ tree.entry? place = some entry := by
  unfold find
  cases tree.walk workDir .followed path with
  | error fault => simp only [reduceCtorEq, false_and]
  | ok reached =>
      cases reached with
      | missing parent name => simp only [reduceCtorEq, Except.ok.injEq, false_and]
      | present goal =>
          cases hentry : tree.entry? goal with
          | none =>
              refine iff_of_false (by simp only [hentry, reduceCtorEq, not_false_eq_true])
                fun h => ?_
              rw [← Reached.present.inj (Except.ok.inj h.1), hentry] at h
              exact absurd h.2 (Option.some_ne_none entry).symm
          | some found =>
              simp only [hentry, Except.ok.injEq, Prod.mk.injEq, Reached.present.injEq]
              refine and_congr_right fun hgoal => ?_
              rw [← hgoal, hentry, Option.some.injEq]

-- What is read from a path is the content of the file found there.
theorem find_of_readBytes (workDir : Place) (path : Text) (bytes : Bytes)
    (h : tree.readBytes workDir path = .ok bytes) :
    ∃ place executable, tree.find workDir path = .ok (place, .file bytes executable) := by
  unfold readBytes at h
  split at h
  · exact absurd h (by simp only [reduceCtorEq, not_false_eq_true])
  · next place content executable hfind =>
      rw [Except.ok.inj h] at hfind
      exact ⟨place, executable, hfind⟩
  · exact absurd h (by simp only [reduceCtorEq, not_false_eq_true])

/-- What is read from a written path: the bytes of the file its names lead to. -/
theorem readBytes_eq_ok_iff (workDir : Place) (slashes : Nat) (names : List Text) (bytes : Bytes)
    (hslashes : 0 < slashes) (hnames : ∀ name ∈ names, Path.Proper name) :
    tree.readBytes workDir (Path.write slashes names) = .ok bytes
      ↔ Path.Admitted (Path.write slashes names) ∧ ∃ used goal executable, used ≤ maxLinks
        ∧ tree.Route [] names used goal ∧ tree.kind? goal = some (.file bytes executable) := by
  constructor
  · intro h
    rcases find_of_readBytes workDir _ bytes h with ⟨goal, executable, hfind⟩
    rcases (find_eq_ok_iff workDir _ goal _).mp hfind with ⟨hwalk, hentry⟩
    rcases (walk_eq_present_iff workDir slashes names goal hslashes hnames).mp hwalk with
      ⟨hadmitted, used, hused, hroute⟩
    refine ⟨hadmitted, used, goal, executable, hused, hroute, ?_⟩
    rw [kind?, hentry]
    rfl
  · rintro ⟨hadmitted, used, goal, executable, hused, hroute, hkind⟩
    have hwalk := (walk_eq_present_iff workDir slashes names goal hslashes hnames).mpr
      ⟨hadmitted, used, hused, hroute⟩
    have hfind := (find_eq_ok_iff workDir _ goal _).mpr
      ⟨hwalk, entry?_eq_file tree goal bytes executable hkind⟩
    rw [readBytes, hfind]

end FileTree

end QueryDesk
