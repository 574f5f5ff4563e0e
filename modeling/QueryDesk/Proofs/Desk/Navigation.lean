import QueryDesk.Proofs.Desk.Newest
import QueryDesk.Proofs.Files.Directory

/-!
# Where a place in the output leads

The panel shows the output of one query, and the relative paths in that output
are meant from the directory of that query's file. The workbench remembers one
directory, and changes it as soon as the next query is taken. Until that query's
result is shown, and for good when it fails, the panel shows the output of one
query while paths are looked for from the directory of another.

So a place leads where it should just as long as the two directories give the
same path. For a path without pairs of dots this means that the two files are in
the same directory.

## Main definitions

* `Invocation.resolved`: A path of a query's output, from the query's file.

## Theorems

* `followed_location`: A gesture leads only to places that the panel shows.
* `activate_based`: A relative path is looked for from the remembered directory.
* `gesture_leads_from_newest`: Where a place leads, and when this is where it
  should.
-/

namespace QueryDesk

/-- A relative path of a query's output, seen from the directory of the query's
    file. -/
def Invocation.resolved (invocation : Invocation) (path : Text) : Text :=
  Path.normalize (Path.join (Path.dirName invocation.position.path) (Text.trim path))

namespace Panel

theorem mem_of_annotationOf (panel : Panel) (block : Int) (mark : Annotation)
    (h : panel.annotationOf block = some mark) :
    ∃ row, (row, mark) ∈ panel.annotations := by
  unfold annotationOf at h
  rcases Option.map_eq_some_iff.mp h with ⟨⟨row, found⟩, hfind, hfound⟩
  rw [← hfound]
  exact ⟨row, List.mem_of_find?_eq_some hfind⟩

/-- A gesture leads only to places that the panel shows. -/
theorem followed_location (panel : Panel) (gesture : Gesture) (location : Location)
    (h : panel.followed gesture = some location) :
    ∃ row mark, (row, mark) ∈ panel.annotations ∧ mark.location = location := by
  have hblock : ∀ block : Int, (panel.annotationOf block).map (·.location) = some location →
      ∃ row mark, (row, mark) ∈ panel.annotations ∧ mark.location = location := by
    intro block hmap
    rcases Option.map_eq_some_iff.mp hmap with ⟨mark, hmark, hlocation⟩
    rcases mem_of_annotationOf panel block mark hmark with ⟨row, hrow⟩
    exact ⟨row, mark, hrow, hlocation⟩
  cases gesture with
  | select start stop => exact absurd h (by simp only [followed, reduceCtorEq, not_false_eq_true])
  | move block column => exact absurd h (by simp only [followed, reduceCtorEq, not_false_eq_true])
  | doubleClick block column => exact hblock _ h
  | key isEnter =>
      cases isEnter with
      | true => exact hblock _ h
      | false => exact absurd h (by simp only [followed, reduceCtorEq, not_false_eq_true])
  | release button block column =>
      cases button with
      | other => exact absurd h (by simp only [followed, reduceCtorEq, not_false_eq_true])
      | left =>
          -- A click leads somewhere only near a glyph and with nothing selected.
          unfold followed annotationNear annotationAt at h
          by_cases hselected : panel.view.hasSelection = true
          · simp only [hselected, if_true, reduceCtorEq] at h
          · simp only [hselected, Bool.false_eq_true, if_false] at h
            rcases Option.map_eq_some_iff.mp h with ⟨mark, hfilter, hlocation⟩
            rcases mem_of_annotationOf panel _ mark (Option.filter_eq_some_iff.mp hfilter).1
              with ⟨row, hrow⟩
            exact ⟨row, mark, hrow, hlocation⟩

end Panel

namespace Workbench

/-- A relative path that is not blank is looked for from the remembered
    directory. -/
theorem activate_based (bench : Workbench) (path : Text) (line column : Int)
    (hpath : Text.trim path ≠ []) (hrelative : Path.isAbsolute (Text.trim path) = false) :
    bench.activate path line column
      = [.navigate (Path.normalize (Path.join bench.baseDir (Text.trim path))) line column] := by
  have hempty : (Text.trim path).isEmpty = false := by
    cases htrim : Text.trim path with
    | nil => exact absurd htrim hpath
    | cons c rest => rfl
  unfold activate
  simp only [hempty, hrelative, Bool.false_eq_true, if_false, Bool.not_false, Bool.true_and]
  cases hbase : bench.baseDir with
  | nil =>
      -- Seen from no directory the path stands for itself.
      have hjoin : Path.join [] (Text.trim path) = Text.trim path := by
        unfold Path.join
        rw [hrelative]
        rfl
      rw [hjoin]
      rfl
  | cons c rest => rfl

end Workbench

/-- The path in a marker is not blank. -/
theorem Marker.trim_path_ne_nil {line : Text} {marker : Marker}
    (h : Marker.match? line = some marker) : Text.trim marker.path ≠ [] := by
  rcases Marker.head_path line marker h with ⟨c, rest, hpath, hblank⟩
  rw [hpath]
  rcases Text.trim_cons c rest hblank with ⟨more, hmore⟩
  rw [hmore]
  exact List.cons_ne_nil c more

namespace Chronicle

variable {log : Chronicle}

-- Where the panel leads, it shows a result, and the place is that of a marker in its output.
theorem Sound.followed_shown (h : log.Sound) (gesture : Gesture) (location : Location)
    (hfollowed : log.bench.panel.followed gesture = some location) :
    ∃ number result document, log.shown.getLast? = some (number, result)
      ∧ Annotator.standard.annotate (.ofText result.output) = .ok document
      ∧ log.bench.panel.sight = Panel.sightOf document (Workbench.summary result document)
      ∧ Text.trim location.path ≠ [] := by
  rcases Panel.followed_location _ gesture location hfollowed with ⟨row, mark, hmem, rfl⟩
  have hdisplays := h.displays
  unfold Displays at hdisplays
  cases hlast : log.shown.getLast? with
  | none =>
      simp only [hlast] at hdisplays
      rw [hdisplays] at hmem
      exact absurd hmem List.not_mem_nil
  | some entry =>
      rcases entry with ⟨number, result⟩
      simp only [hlast] at hdisplays
      rcases hdisplays with ⟨document, hdocument, hsight⟩
      refine ⟨number, result, document, rfl, hdocument, hsight, ?_⟩
      have hannotations : log.bench.panel.annotations
          = (Panel.sightOf document (Workbench.summary result document)).annotations :=
        congrArg Panel.Sight.annotations hsight
      rw [hannotations] at hmem
      rcases List.mem_map.mp hmem with ⟨⟨line, found⟩, hfound, heq⟩
      rw [(Prod.mk.inj heq).2] at hfound
      -- The place comes of a marker.
      rcases Annotator.exists_marker_of_annotate _ _ document hdocument line mark hfound with
        ⟨_, _, marker, hmarker, hlocation⟩
      rw [hlocation]
      exact Marker.trim_path_ne_nil hmarker

-- There is a newest query when a result was shown.
theorem Sound.exists_newest (h : log.Sound) (entry : Nat × Invocation) (hmem : entry ∈ log.taken) :
    ∃ newest, log.taken.getLast? = some (log.bench.latest, newest) := by
  cases hlast : log.taken.getLast? with
  | none =>
      rw [List.getLast?_eq_none_iff.mp hlast] at hmem
      exact absurd hmem List.not_mem_nil
  | some last =>
      rcases last with ⟨number, newest⟩
      have hnumber : number = log.bench.latest := by
        have hmap : (log.taken.map (·.1)).getLast? = some number := by
          rw [List.getLast?_map, hlast]
          rfl
        rw [h.numbered, List.getLast?_range'] at hmap
        split at hmap
        · exact absurd hmap (by simp only [reduceCtorEq, not_false_eq_true])
        · have := Option.some.inj hmap
          omega
      exact ⟨newest, by rw [hnumber]⟩

end Chronicle

namespace Workbench

/-- A gesture that leads to a relative path leads there from the directory of the
    newest query's file. This is where the path leads from the file of the query
    whose output is shown when the two files are in the same directory, and for a
    path without pairs of dots only then. -/
theorem gesture_leads_from_newest (bench : Workbench) (h : bench.Unused) (actions : List Action)
    (gesture : Gesture) (location : Location)
    (hfollowed : (bench.follow actions).bench.panel.followed gesture = some location)
    (hrelative : Path.isAbsolute (Text.trim location.path) = false) :
    let log := bench.follow actions
    ∃ newest displayed number result document,
      log.taken.getLast? = some (log.bench.latest, newest)
        ∧ log.shown.getLast? = some (number, result)
        ∧ (number, displayed) ∈ log.taken ∧ result.Answers displayed
        ∧ Annotator.standard.annotate (.ofText result.output) = .ok document
        ∧ log.bench.panel.sight = Panel.sightOf document (summary result document)
        ∧ (log.bench.react gesture).notices
          = [.navigate (newest.resolved location.path) location.line location.column]
        ∧ (Path.normalize (Path.dirName newest.position.path)
            = Path.normalize (Path.dirName displayed.position.path) →
          (log.bench.react gesture).notices
            = [.navigate (displayed.resolved location.path) location.line location.column])
        ∧ (Path.Descending (Text.trim location.path) →
          ((log.bench.react gesture).notices
              = [.navigate (displayed.resolved location.path) location.line location.column]
            ↔ Path.normalize (Path.dirName newest.position.path)
              = Path.normalize (Path.dirName displayed.position.path))) := by
  intro log
  have hsound : log.Sound := Chronicle.sound_follow bench h actions
  rcases hsound.followed_shown gesture location hfollowed with
    ⟨number, result, document, hshown, hdocument, hsight, hpath⟩
  rcases hsound.answered_shown number result (List.mem_of_getLast? hshown) with
    ⟨displayed, hdisplayed, hanswers⟩
  rcases hsound.exists_newest _ hdisplayed with ⟨newest, hnewest⟩
  -- The base directory is that of the query taken last, whether or not it was shown.
  have hbase : log.bench.baseDir = Path.dirName newest.position.path :=
    hsound.baseDir_newest hnewest
  have hnotices : (log.bench.react gesture).notices
      = [.navigate (newest.resolved location.path) location.line location.column] := by
    have hreact : (log.bench.react gesture).notices
        = log.bench.activate location.path location.line location.column := by
      simp only [react, Panel.react, Outcome.tell]
      rw [hfollowed]
    rw [hreact, activate_based log.bench _ _ _ hpath hrelative, hbase]
    rfl
  have hfrom := Path.isAbsolute_dirName _ (hsound.placed _ (List.mem_of_getLast? hnewest))
  have hwanted := Path.isAbsolute_dirName _ (hsound.placed _ hdisplayed)
  refine ⟨newest, displayed, number, result, document, hnewest, hshown, hdisplayed, hanswers,
    hdocument, hsight, hnotices, ?_, ?_⟩
  · intro hsame
    rw [hnotices, Invocation.resolved,
      Path.normalize_join_eq_of_eq _ _ _ hfrom hwanted hrelative hsame]
    rfl
  · intro hdescending
    rw [hnotices, ← Path.normalize_join_eq_iff _ _ _ hfrom hwanted hrelative hdescending]
    simp only [List.cons.injEq, and_true, Notice.navigate.injEq, and_self]
    rfl

/-- When the only query is the one whose output is shown, its glyph leads to a file
    beside the one asked about. -/
theorem only_query_leads_home :
    let actions := [askAbout "/a/x.go", .work 1, .drain]
    let log := (twoFiles ["z.go:1:2: found\n"]).follow actions
    ∃ newest displayed, log.taken.getLast? = some (1, newest)
      ∧ (1, displayed) ∈ log.taken
      ∧ (log.bench.react (.release .left 1 0)).notices = [.navigate "/a/z.go" 1 2]
      ∧ (log.bench.react (.release .left 1 0)).notices
        = [.navigate (displayed.resolved "z.go") 1 2] := by
  intro actions log
  have hfollowed : log.bench.panel.followed (.release .left 1 0)
      = some ⟨"z.go", 1, 2, none, none⟩ := by decide +kernel
  have hlatest : log.bench.latest = 1 := by decide +kernel
  have hshown : log.shown.map (·.1) = [1] := by decide +kernel
  rcases gesture_leads_from_newest _ (unused_twoFiles _) actions _ _ hfollowed rfl with
    ⟨newest, displayed, number, result, document, hnewest, hlast, hdisplayed, _, _, _, _, hsame, _⟩
  have hnumber : number = 1 := by
    have hmem := List.mem_map_of_mem (f := (·.1)) (List.mem_of_getLast? hlast)
    rw [hshown] at hmem
    exact List.mem_singleton.mp hmem
  rw [hlatest] at hnewest
  rw [hnumber] at hdisplayed
  have hone : newest = displayed :=
    (Chronicle.sound_follow _ (unused_twoFiles _) actions).unique_taken 1 newest displayed
      (List.mem_of_getLast? hnewest) hdisplayed
  refine ⟨newest, displayed, hnewest, hdisplayed, by decide +kernel, hsame ?_⟩
  rw [hone]

/-- A query that was only taken sends the glyphs of the output shown elsewhere: the
    panel shows what a query about `/a/x.go` gave, and its relative path leads to a
    file beside `/b/y.go`. -/
theorem later_query_misleads :
    let actions := [askAbout "/a/x.go", .work 1, .drain, askAbout "/b/y.go"]
    let log := (twoFiles ["z.go:1:2: found\n"]).follow actions
    log.shown.map (fun entry => (entry.1, entry.2.invocation.resolved "z.go"))
        = [(1, ("/a/z.go" : Text))]
      ∧ log.bench.panel.text = "Go Oracle\n▶ found\n"
      ∧ log.bench.panel.followed (.release .left 1 0) = some ⟨"z.go", 1, 2, none, none⟩
      ∧ (log.bench.react (.release .left 1 0)).notices = [.navigate "/b/z.go" 1 2]
      ∧ (log.bench.react (.release .left 1 0)).notices ≠ [.navigate "/a/z.go" 1 2] := by
  decide +kernel

end Workbench

end QueryDesk
