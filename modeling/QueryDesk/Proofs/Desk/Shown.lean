import QueryDesk.Proofs.Desk.Navigation
import QueryDesk.Proofs.Text.Ending
import QueryDesk.Proofs.Text.Line

/-!
# Which line a block of the panel shows

The panel counts blocks, the output has lines, and the two are cut by different
rules. Output is cut at every break there is, so its lines hold none that the panel
could cut again. Hence the blocks of a panel that shows output are the banner, one
block for each line, and an empty one after the last feed, and block and line differ
by one for every text.

A place is therefore found under the block of the line that began with its marker,
and nowhere else, whatever was shown before.

## Main definitions

* `Text.markerAt`: The marker of the line that a block shows.
* `Invocation.way`: Where a marker leads from the file of a query.

## Theorems

* `broken_join`: Parts without breaks put together are cut into the same parts.
* `blocks_of_sight`: The blocks of a panel that shows output.
* `annotationOf_of_sight`: The annotation of each block.
* `activate_marker`: A marker leads from the remembered directory.
* `newest_output_leads`: What the panel shows of the newest query, and where each
  block leads.
-/

namespace QueryDesk

namespace Text

theorem map_join (f : Char → Char) (sep : Char) (parts : List Text) :
    (join [sep] parts).map f = join [f sep] (parts.map (·.map f)) := by
  induction parts with
  | nil => rfl
  | cons part parts ih =>
      cases parts with
      | nil => rw [join, List.map_singleton, join, List.intercalate_singleton,
          List.intercalate_singleton]
      | cons second more =>
          have hrest : ([sep].intercalate (second :: more)).map f
              = [f sep].intercalate (second.map f :: more.map (·.map f)) := ih
          change ([sep].intercalate (part :: second :: more)).map f
            = [f sep].intercalate (part.map f :: second.map f :: more.map (·.map f))
          rw [List.intercalate_cons_cons, List.intercalate_cons_cons, List.map_append,
            List.map_append, hrest]
          rfl

-- An empty part at the end is a separator at the end.
theorem join_concat_nil (sep : Char) (parts : List Text) (hne : parts ≠ []) :
    join [sep] (parts ++ [[]]) = join [sep] parts ++ [sep] := by
  induction parts with
  | nil => exact absurd rfl hne
  | cons part parts ih =>
      cases parts with
      | nil =>
          rw [List.singleton_append, join, List.intercalate_cons_cons, join,
            List.intercalate_singleton, List.intercalate_singleton, List.append_nil]
      | cons second more =>
          have hrest := ih (List.cons_ne_nil second more)
          rw [join, join] at hrest
          rw [List.cons_append, List.cons_append, join, List.intercalate_cons_cons,
            ← List.cons_append, hrest, join, List.intercalate_cons_cons, ← List.append_assoc]

/-- The marker of the line of output that a block of the panel shows. The first block is
    the banner. -/
def markerAt (output : Text) (block : Int) : Option Marker :=
  if 0 < block then ((lines output)[(block - 1).toNat]?).bind Marker.match? else none

theorem markerAt_of_lt {output : Text} {block : Int} (h : (lines output).length < block) :
    markerAt output block = none := by
  unfold markerAt
  split
  · rw [List.getElem?_eq_none (by omega)]
    rfl
  · rfl

end Text

namespace Buffer

/-- Parts without breaks put together are cut into the same parts again. -/
theorem broken_join (parts : List Text) (h : ∀ part ∈ parts, ∀ c ∈ part, c ≠ '\r' ∧ c ≠ '\n') :
    broken (Text.join ['\n'] parts) = Text.join [blockBreak] parts := by
  have hreturn : '\r' ∉ Text.join ['\n'] parts := by
    intro hmem
    rcases Text.mem_join ['\n'] '\r' parts hmem with heq | ⟨part, hpart, hc⟩
    · exact absurd heq (by decide)
    · exact (h part hpart '\r' hc).1 rfl
  have hsame : parts.map (·.map breakChar) = parts := by
    refine (List.map_congr_left fun part hpart => ?_).trans (List.map_id parts)
    refine (List.map_congr_left fun c hc => ?_).trans (List.map_id part)
    exact if_neg (not_or.mpr (h part hpart c hc))
  rw [broken_eq_map _ (Text.hasPair_of_no_return _ hreturn), Text.map_join, hsame]
  rfl

end Buffer

/-! ## The blocks of a panel -/

namespace Document

/-- The annotation found under a number is that of the line with this number. -/
theorem find?_annotationsFrom (lines : List OutputLine) (first row : Nat) :
    ((annotationsFrom first lines).find? fun entry => entry.1 == row).map (·.2)
      = if first ≤ row then (lines[row - first]?).bind (fun line => line.annotation) else none := by
  induction lines generalizing first with
  | nil =>
      rw [annotationsFrom, List.find?_nil, List.getElem?_nil]
      exact (ite_self none).symm
  | cons line lines ih =>
      have hlater := ih (first + 1)
      have hstart : ∀ mark : Annotation,
          (((first, mark) :: annotationsFrom (first + 1) lines).find?
            fun entry => entry.1 == row).map (·.2)
          = if first = row then some mark
            else if first + 1 ≤ row then
              (lines[row - (first + 1)]?).bind (fun line => line.annotation)
            else none := by
        intro mark
        rw [List.find?_cons]
        by_cases hrow : first = row
        · rw [if_pos hrow, beq_iff_eq.mpr hrow]
          rfl
        · rw [if_neg hrow, beq_eq_false_iff_ne.mpr hrow, ← hlater]
      unfold annotationsFrom
      by_cases hrow : first = row
      · subst hrow
        rw [if_pos (Nat.le_refl _), Nat.sub_self, List.getElem?_cons_zero, Option.bind_some]
        cases hmark : line.annotation with
        | none => simp only [hlater, if_neg (Nat.not_succ_le_self first)]
        | some mark => simp only [hstart mark, if_true]
      · have hrest : (if first ≤ row then
              ((line :: lines)[row - first]?).bind (fun line => line.annotation)
            else none)
            = if first + 1 ≤ row then (lines[row - (first + 1)]?).bind (fun line => line.annotation)
              else none := by
          by_cases hle : first + 1 ≤ row
          · rw [if_pos hle, if_pos (Nat.le_of_succ_le hle),
              show row - first = row - (first + 1) + 1 by omega, List.getElem?_cons_succ]
          · rw [if_neg hle, if_neg (by omega)]
        rw [hrest]
        cases hmark : line.annotation with
        | none => simp only [hlater]
        | some mark => simp only [hstart mark, if_neg hrow]

end Document

namespace Panel

variable {panel : Panel} {output summary : Text}

theorem plain_annotated {line : Text} (h : ∀ c ∈ line, Text.isLineBreak c = false) :
    ∀ c ∈ (Annotator.standard.annotated line).text, Text.isLineBreak c = false := by
  have hfront : ∀ c ∈ Annotator.standard.glyph ++ Annotator.standard.separator,
      Text.isLineBreak c = false := Text.not_isLineBreak_of_any (by decide)
  unfold Annotator.annotated
  cases Marker.match? line with
  | none => exact h
  | some marker =>
      intro c hc
      rcases List.mem_append.mp hc with hc | hc
      · exact hfront c hc
      · exact h c (List.mem_of_mem_drop hc)

/-- The blocks of a panel that shows output are the banner, one for each line, and an
    empty one. -/
theorem blocks_of_sight
    (h : panel.sight
      = sightOf ⟨(Text.lines output).map Annotator.standard.annotated⟩ summary) :
    panel.view.blocks = banner ::
      (Text.lines output).map (fun line => (Annotator.standard.annotated line).text) ++ [[]] := by
  let parts := banner ::
    (Text.lines output).map (fun line => (Annotator.standard.annotated line).text) ++ [[]]
  have hplain : ∀ part ∈ parts, ∀ c ∈ part, Text.isLineBreak c = false := by
    intro part hpart
    rcases List.mem_append.mp hpart with hpart | hpart
    · rcases List.mem_cons.mp hpart with rfl | hpart
      · exact Text.not_isLineBreak_of_any (by decide)
      · rcases List.mem_map.mp hpart with ⟨line, hline, rfl⟩
        exact plain_annotated (Text.not_isLineBreak_of_mem_lines output line hline)
    · rw [List.mem_singleton.mp hpart]
      exact fun c hc => absurd hc List.not_mem_nil
  -- None of the breaks that the panel knows is left in a line.
  have hcontent : panel.view.content = Text.join [Buffer.blockBreak] parts := by
    rw [← Buffer.broken_join parts fun part hpart c hc => ⟨?_, ?_⟩, Text.join_concat_nil _ _
      (List.cons_ne_nil _ _)]
    · have hbroken := congrArg Sight.content h
      rw [sightOf, textOf, List.map_map] at hbroken
      exact hbroken
    · rintro rfl
      exact absurd (hplain part hpart _ hc) (by decide)
    · rintro rfl
      exact absurd (hplain part hpart _ hc) (by decide)
  rw [Buffer.blocks, hcontent]
  refine Text.splitOn_join _ parts (List.cons_ne_nil _ _) fun part hpart hbreak => ?_
  exact absurd (hplain part hpart _ hbreak) (by decide)

/-- The annotation of a block is that of the marker in the line it shows. -/
theorem annotationOf_of_sight
    (h : panel.sight
      = sightOf ⟨(Text.lines output).map Annotator.standard.annotated⟩ summary)
    (block : Int) :
    panel.annotationOf block = (output.markerAt block).map fun marker =>
      ⟨0, Annotator.standard.glyph.length, marker.location⟩ := by
  have hannotations := congrArg Sight.annotations h
  change panel.annotations = List.map _ (Document.annotationsFrom 0 _) at hannotations
  rw [annotationOf, hannotations, List.find?_map, Option.map_map]
  unfold Text.markerAt
  by_cases hblock : 0 < block
  · have hkey : ((fun entry : Nat × Annotation => (entry.1 : Int) == block)
        ∘ fun entry : Nat × Annotation => (entry.1 + 1, entry.2))
        = fun entry => entry.1 == (block - 1).toNat := by
      funext entry
      rw [Function.comp_apply, Bool.eq_iff_iff, beq_iff_eq, beq_iff_eq]
      omega
    have hfound := Document.find?_annotationsFrom
      ((Text.lines output).map Annotator.standard.annotated) 0 (block - 1).toNat
    rw [if_pos (Nat.zero_le _), Nat.sub_zero, List.getElem?_map, ← hkey] at hfound
    rw [if_pos hblock]
    refine hfound.trans ?_
    cases (Text.lines output)[(block - 1).toNat]? with
    | none => rfl
    | some line => exact Annotator.annotated_annotation Annotator.standard line
  · rw [if_neg hblock]
    refine Option.map_eq_none_iff.mpr (List.find?_eq_none.mpr fun entry _ => ?_)
    change ¬ (((entry.1 + 1 : Nat) : Int) == block) = true
    rw [beq_iff_eq]
    omega

/-- The annotation at a column of a block is that of the marker, as far as the glyph
    reaches. -/
theorem annotationAt_of_sight
    (h : panel.sight
      = sightOf ⟨(Text.lines output).map Annotator.standard.annotated⟩ summary)
    (block column : Int) :
    panel.annotationAt block column
      = if 0 ≤ column ∧ column ≤ Annotator.standard.glyph.length then
          (output.markerAt block).map fun marker =>
            ⟨0, Annotator.standard.glyph.length, marker.location⟩
        else none := by
  rw [annotationAt, annotationOf_of_sight h]
  cases output.markerAt block with
  | none => exact (ite_self none).symm
  | some marker =>
      rw [Option.map_some, Option.filter_some]
      simp only [decide_eq_true_eq]

theorem length_blocks_of_sight
    (h : panel.sight
      = sightOf ⟨(Text.lines output).map Annotator.standard.annotated⟩ summary) :
    panel.view.blocks.length = (Text.lines output).length + 2 := by
  rw [blocks_of_sight h, List.length_append, List.length_cons, List.length_map]
  rfl

-- A point outside the text is nearest to the banner or to the empty block.
theorem markerAt_clamp
    (h : panel.sight
      = sightOf ⟨(Text.lines output).map Annotator.standard.annotated⟩ summary)
    (block column : Int) :
    output.markerAt (panel.view.clamp block column).1 = output.markerAt block := by
  change output.markerAt (min block.toNat (panel.view.blocks.length - 1) : Nat) = _
  rw [length_blocks_of_sight h]
  by_cases hlow : 0 < block
  · by_cases hhigh : block ≤ (Text.lines output).length
    · congr 1
      omega
    · rw [Text.markerAt_of_lt (by omega), Text.markerAt_of_lt (by omega)]
  · rw [Text.markerAt, Text.markerAt, if_neg (by omega), if_neg hlow]

/-- The annotation nearest to a point is that of the marker in the point's block, when the
    point is not right of the glyph. -/
theorem annotationNear_of_sight
    (h : panel.sight
      = sightOf ⟨(Text.lines output).map Annotator.standard.annotated⟩ summary)
    (block column : Int) :
    panel.annotationNear block column
      = if column ≤ Annotator.standard.glyph.length then
          (output.markerAt block).map fun marker =>
            ⟨0, Annotator.standard.glyph.length, marker.location⟩
        else none := by
  have hnear : panel.annotationNear block column = panel.annotationAt
      (panel.view.clamp block column).1 (panel.view.clamp block column).2 := rfl
  rw [hnear, annotationAt_of_sight h, markerAt_clamp h]
  cases hmarker : output.markerAt block with
  | none => rw [Option.map_none, ite_self, ite_self]
  | some marker =>
      -- The line with the marker is longer than the glyph, so the column is not cut short.
      have hlong : Annotator.standard.glyph.length < Text.unitLength
          ((panel.view.blocks[min block.toNat (panel.view.blocks.length - 1)]?).getD []) := by
        unfold Text.markerAt at hmarker
        split at hmarker
        · next hblock =>
            rcases Option.bind_eq_some_iff.mp hmarker with ⟨line, hline, hmatch⟩
            have hindex : (block - 1).toNat < (Text.lines output).length := by
              rcases List.getElem?_eq_some_iff.mp hline with ⟨hlt, _⟩
              exact hlt
            have hclamp : min block.toNat (panel.view.blocks.length - 1)
                = (block - 1).toNat + 1 := by
              rw [length_blocks_of_sight h]
              omega
            rw [hclamp, blocks_of_sight h, List.cons_append, List.getElem?_cons_succ,
              List.getElem?_append_left (by rw [List.length_map]; exact hindex), List.getElem?_map,
              hline, Option.map_some, Option.getD_some, Annotator.annotated, hmatch]
            simp only [Text.unitLength, Text.measure_append]
            exact Nat.lt_of_lt_of_le (by decide) (Nat.le_add_right _ _)
        · exact absurd hmarker (Option.some_ne_none marker).symm
      have hcut : ∀ units : Nat, Annotator.standard.glyph.length < units →
          ((0 ≤ ((min column.toNat units : Nat) : Int)
            ∧ ((min column.toNat units : Nat) : Int) ≤ Annotator.standard.glyph.length)
          ↔ column ≤ Annotator.standard.glyph.length) := fun units hlt => by omega
      exact if_congr (hcut _ hlong) rfl rfl

end Panel

/-! ## Where the blocks lead -/

namespace Invocation

/-- The place that a path in the output of a query leads to: an absolute path as it is, and
    a relative one from the directory of the query's file. -/
def leadsTo (invocation : Invocation) (path : Text) : Text :=
  Path.normalize <|
    if Path.isAbsolute (Text.trim path) then Text.trim path
    else Path.join (Path.dirName invocation.position.path) (Text.trim path)

/-- What is told when a block with a marker, or with none, is activated. -/
def way (invocation : Invocation) : Option Marker → List Notice
  | none => []
  | some marker =>
      [.navigate (invocation.leadsTo marker.path) marker.location.line marker.location.column]

end Invocation

namespace Workbench

/-- A marker leads from the remembered directory. -/
theorem activate_marker (bench : Workbench) (invocation : Invocation) {line : Text}
    {marker : Marker} (hmatch : Marker.match? line = some marker)
    (hbase : bench.baseDir = Path.dirName invocation.position.path) :
    bench.activate marker.location.path marker.location.line marker.location.column
      = invocation.way (some marker) := by
  have hpath := Marker.trim_path_ne_nil hmatch
  rw [Invocation.way, Invocation.leadsTo]
  by_cases habsolute : Path.isAbsolute (Text.trim marker.path) = true
  · have hempty : (Text.trim marker.path).isEmpty = false := by
      rw [Bool.eq_false_iff]
      exact mt List.isEmpty_iff.mp hpath
    rw [if_pos habsolute]
    simp only [activate, Marker.location, hempty, habsolute, Bool.not_true, Bool.false_and,
      Bool.false_eq_true, if_false]
  · rw [if_neg habsolute, ← hbase]
    exact activate_based bench marker.path _ _ hpath (Bool.eq_false_iff.mpr habsolute)

theorem notices_react (bench : Workbench) (gesture : Gesture) :
    (bench.react gesture).notices = match bench.panel.followed gesture with
      | some location => bench.activate location.path location.line location.column
      | none => [] := rfl

-- A gesture tells the way to the place that it leads to.
theorem react_way (bench : Workbench) (gesture : Gesture) (invocation : Invocation)
    (output : Text) (block : Int)
    (hfollowed : bench.panel.followed gesture = (output.markerAt block).map Marker.location)
    (hbase : bench.baseDir = Path.dirName invocation.position.path) :
    (bench.react gesture).notices = invocation.way (output.markerAt block) := by
  rw [notices_react, hfollowed]
  cases hmarker : output.markerAt block with
  | none => rfl
  | some marker =>
      unfold Text.markerAt at hmarker
      split at hmarker
      · rcases Option.bind_eq_some_iff.mp hmarker with ⟨line, _, hmatch⟩
        exact activate_marker bench invocation hmatch hbase
      · exact absurd hmarker (Option.some_ne_none marker).symm

-- A click tells the way when nothing is selected and it is near the glyph.
theorem notices_click (bench : Workbench) (invocation : Invocation) {output : Text}
    {summary : Text} (hsight : bench.panel.sight = Panel.sightOf
      ⟨(Text.lines output).map Annotator.standard.annotated⟩ summary)
    (hbase : bench.baseDir = Path.dirName invocation.position.path) (block column : Int) :
    (bench.react (.release .left block column)).notices
      = if bench.panel.view.hasSelection = false ∧ column ≤ Annotator.standard.glyph.length then
          invocation.way (output.markerAt block)
        else [] := by
  by_cases hselected : bench.panel.view.hasSelection = true
  · have hnone : bench.panel.followed (.release .left block column) = none := if_pos hselected
    rw [if_neg (by rw [hselected]; exact fun hno => absurd hno.1 Bool.false_ne_true.symm),
      notices_react, hnone]
  · have hfollowed : bench.panel.followed (.release .left block column)
        = if column ≤ Annotator.standard.glyph.length then
            (output.markerAt block).map Marker.location
          else none := by
      refine (if_neg hselected).trans ?_
      rw [Panel.annotationNear_of_sight hsight]
      split
      · rw [Option.map_map]
        rfl
      · rfl
    by_cases hcolumn : column ≤ Annotator.standard.glyph.length
    · rw [if_pos ⟨Bool.eq_false_iff.mpr hselected, hcolumn⟩]
      rw [if_pos hcolumn] at hfollowed
      exact react_way bench _ invocation _ block hfollowed hbase
    · rw [if_neg fun hboth => hcolumn hboth.2]
      rw [if_neg hcolumn] at hfollowed
      rw [notices_react, hfollowed]

/-- Once the result of the newest query is off the queue, the blocks of the panel are the
    banner, the lines of its output and an empty block. A line that begins with a marker is
    shown with the glyph in the marker's place. Such a block, and no other, leads to the place
    that its marker names, by its glyph, with two clicks, or with the enter key. -/
theorem newest_output_leads (bench : Workbench) (h : bench.Unused) (actions : List Action)
    (result : RunResult)
    (hcollected : ((bench.follow actions).bench.latest, .ok result)
      ∈ (bench.follow actions).collected)
    (hshort : result.output.ShortMarkers) :
    let after := (bench.follow actions).bench
    let shown := Annotator.standard
    ∃ invocation, (bench.follow actions).taken.getLast? = some (after.latest, invocation)
      ∧ result.Answers invocation
      ∧ after.panel.view.blocks = Panel.banner
          :: (Text.lines result.output).map (fun line => (shown.annotated line).text) ++ [[]]
      ∧ (∀ block column : Int,
        after.panel.annotationAt block column
          = if 0 ≤ column ∧ column ≤ shown.glyph.length then
              (result.output.markerAt block).map fun marker =>
                ⟨0, shown.glyph.length, marker.location⟩
            else none)
      ∧ (∀ block column : Int,
        (after.react (.doubleClick block column)).notices
          = invocation.way (result.output.markerAt block))
      ∧ (∀ block column : Int,
        (after.react (.release .left block column)).notices
          = if after.panel.view.hasSelection = false ∧ column ≤ shown.glyph.length then
              invocation.way (result.output.markerAt block)
            else [])
      ∧ (after.react (.key true)).notices = invocation.way
          (result.output.markerAt (after.panel.view.locate after.panel.view.position).1)
      ∧ ∀ start stop block column,
        (after.react (.select start stop)).notices = []
          ∧ (after.react (.move block column)).notices = []
          ∧ (after.react (.release .other block column)).notices = []
          ∧ (after.react (.key false)).notices = [] := by
  intro after shown
  have hsound : (bench.follow actions).Sound := Chronicle.sound_follow bench h actions
  have hdocument := Annotator.annotate_eq shown result.output hshort
  rcases hsound.answered _ result (List.mem_append_left _ hcollected) with
    ⟨invocation, htaken, hanswers⟩
  have hlast := hsound.getLast_taken invocation htaken
  -- The panel shows this output, and paths are looked for from this query's file.
  have hsight := hsound.sight_newest hcollected hdocument
  have hbase : after.baseDir = Path.dirName invocation.position.path := hsound.baseDir_newest hlast
  have hplace : ∀ block : Int, (after.panel.annotationOf block).map (·.location)
      = (result.output.markerAt block).map Marker.location := by
    intro block
    rw [Panel.annotationOf_of_sight hsight, Option.map_map]
    rfl
  refine ⟨invocation, hlast, hanswers, Panel.blocks_of_sight hsight,
    Panel.annotationAt_of_sight hsight, ?_, notices_click after invocation hsight hbase, ?_,
    fun _ _ _ _ => ⟨rfl, rfl, rfl, rfl⟩⟩
  · intro block column
    refine react_way after _ invocation _ block ?_ hbase
    rw [← Panel.markerAt_clamp hsight block column]
    exact hplace _
  · exact react_way after _ invocation _ _ (hplace _) hbase

/-- Output of two lines with a line separator between them. The first one leads to the file
    it names, beside the file asked about, and the second one nowhere. -/
theorem separated_lines_lead :
    let actions := [askAbout "/a/x.go", .work 1, .drain]
    let after := ((twoFiles ["z.go:1:2: found\u2028plain"]).follow actions).bench
    after.panel.view.blocks = (["Go Oracle", "▶ found", "plain", []] : List Text)
      ∧ (after.react (.doubleClick 1 4)).notices = [.navigate "/a/z.go" 1 2]
      ∧ (after.react (.doubleClick 2 4)).notices = [] := by
  intro actions after
  have hcollected : ((twoFiles ["z.go:1:2: found\u2028plain"]).follow actions).collected.map
      (fun entry => (entry.1, entry.2.toOption.map (·.output)))
      = [(after.latest, some ("z.go:1:2: found\u2028plain" : Text))] := by
    decide +kernel
  have htaken : ((twoFiles ["z.go:1:2: found\u2028plain"]).follow actions).taken.map
      (fun entry => entry.2.position.path) = [("/a/x.go" : Text)] := by
    decide +kernel
  have hmem : (after.latest, some ("z.go:1:2: found\u2028plain" : Text))
      ∈ ((twoFiles ["z.go:1:2: found\u2028plain"]).follow actions).collected.map
        fun entry => (entry.1, entry.2.toOption.map (·.output)) := by
    rw [hcollected]
    exact List.mem_singleton_self _
  rcases exists_collected hmem with ⟨result, hentry, houtput⟩
  have hshort : result.output.ShortMarkers := by
    rw [houtput]
    exact (Annotator.annotate_ok_iff Annotator.standard _).mp ⟨_, rfl⟩
  rcases newest_output_leads _ (unused_twoFiles _) actions result hentry hshort with
    ⟨invocation, hlast, _, hblocks, _, hclicks, _⟩
  have hpath : invocation.position.path = ("/a/x.go" : Text) := by
    have hmem := List.mem_map_of_mem (f := fun entry => entry.2.position.path)
      (List.mem_of_getLast? hlast)
    rw [htaken] at hmem
    exact List.mem_singleton.mp hmem
  rw [houtput] at hblocks
  refine ⟨hblocks.trans (by decide +kernel), ?_, ?_⟩
  · rw [hclicks, houtput,
      show Text.markerAt "z.go:1:2: found\u2028plain" 1
        = some ⟨"z.go", ⟨"1", "2"⟩, none, 10⟩ by decide +kernel]
    rw [Invocation.way, Invocation.leadsTo, hpath]
    decide +kernel
  · rw [hclicks, houtput,
      show Text.markerAt "z.go:1:2: found\u2028plain" 2 = none by decide +kernel]
    rfl

end Workbench

end QueryDesk
