import QueryDesk.Proofs.Collect
import QueryDesk.Proofs.Query.Spelling
import QueryDesk.Query.Document

/-!
# Annotated output

Output can be annotated just when every marker at the start of one of its lines
has numbers that are short enough. Then each annotation is that of a marker, and
its path begins with a character that is not blank.

## Main definitions

* `Text.ShortMarkers`: Every marker of the output has short numbers.
* `Annotator.annotated`: A line with its marker replaced.

## Theorems

* `annotate_ok_iff`: Output can be annotated just when its markers are short.
* `annotate_eq`: Then its lines are annotated one by one.
* `Marker.head_path`: The path in a marker begins with no blank.
* `exists_marker_of_annotate`: Annotations are those of the markers.
-/

namespace QueryDesk

/-- Every marker at the start of a line has numbers short enough to be
    converted. -/
def Text.ShortMarkers (output : Text) : Prop :=
  ∀ line ∈ Text.lines output, ∀ marker, Marker.match? line = some marker → marker.isShort = true

-- An annotated line has its annotation among those of the document.
theorem Document.mem_annotationsFrom (lines : List OutputLine) (first row : Nat)
    (mark : Annotation) (h : (row, mark) ∈ Document.annotationsFrom first lines) :
    ∃ line ∈ lines, line.annotation = some mark := by
  induction lines generalizing first with
  | nil => exact absurd h List.not_mem_nil
  | cons line lines ih =>
      unfold Document.annotationsFrom at h
      cases hline : line.annotation with
      | none =>
          simp only [hline] at h
          rcases ih (first + 1) h with ⟨found, hfound, ha⟩
          exact ⟨found, List.mem_cons_of_mem line hfound, ha⟩
      | some own =>
          simp only [hline] at h
          rcases List.mem_cons.mp h with heq | h
          · exact ⟨line, List.mem_cons_self, by rw [hline, (Prod.mk.inj heq).2]⟩
          · rcases ih (first + 1) h with ⟨found, hfound, ha⟩
            exact ⟨found, List.mem_cons_of_mem line hfound, ha⟩

/-- The path in a marker begins with no blank. -/
theorem Marker.head_path (line : Text) (marker : Marker) (h : Marker.match? line = some marker) :
    ∃ c rest, marker.path = c :: rest ∧ Text.isBlank c = false := by
  rcases (Marker.match?_eq_some_iff line marker).mp h with ⟨spelling, rest, hbegins, rfl⟩
  exact hbegins.proper.path.begins

namespace Annotator

-- A plain line can be annotated when a marker at its start is short.
theorem annotateLine_isSome_iff (annotator : Annotator) (line : Text) :
    (∃ annotated, annotator.annotateLine? ⟨line, none⟩ = some annotated)
      ↔ ∀ marker, Marker.match? line = some marker → marker.isShort = true := by
  simp only [annotateLine?, Option.isSome_none, Bool.false_eq_true, if_false, Marker.read]
  cases hmatch : Marker.match? line with
  | none =>
      refine iff_of_true ⟨_, rfl⟩ fun marker h => ?_
      exact absurd h (by simp only [reduceCtorEq, not_false_eq_true])
  | some marker =>
      by_cases hshort : marker.isShort = true
      · simp only [hshort, if_true]
        refine iff_of_true ⟨_, rfl⟩ fun other h => ?_
        rw [← Option.some.inj h, hshort]
      · simp only [hshort, Bool.false_eq_true, if_false]
        refine iff_of_false ?_ fun h => hshort (h marker rfl)
        rintro ⟨annotated, h⟩
        exact absurd h (by simp only [reduceCtorEq, not_false_eq_true])

/-- Output can be annotated just when its markers are short. -/
theorem annotate_ok_iff (annotator : Annotator) (output : Text) :
    (∃ document, annotator.annotate (.ofText output) = .ok document) ↔ output.ShortMarkers := by
  have hlines : (∃ lines, (Document.ofText output).lines.mapM annotator.annotateLine? = some lines)
      ↔ output.ShortMarkers := by
    rw [exists_mapM_iff]
    unfold Document.ofText Text.ShortMarkers
    rw [List.forall_mem_map]
    exact forall₂_congr fun line _ => annotateLine_isSome_iff annotator line
  rw [← hlines]
  unfold annotate annotate?
  cases (Document.ofText output).lines.mapM annotator.annotateLine? with
  | none =>
      refine iff_of_false ?_ ?_
      · rintro ⟨document, h⟩
        exact absurd h (by simp only [Option.map_none, reduceCtorEq, not_false_eq_true])
      · rintro ⟨lines, h⟩
        exact absurd h (by simp only [reduceCtorEq, not_false_eq_true])
  | some lines => exact iff_of_true ⟨⟨lines⟩, rfl⟩ ⟨lines, rfl⟩

/-- A line with its marker replaced. A line without a marker stays as it is. -/
def annotated (annotator : Annotator) (line : Text) : OutputLine :=
  match Marker.match? line with
  | none => ⟨line, none⟩
  | some marker =>
      { text := annotator.glyph ++ annotator.separator ++ line.drop marker.length
        annotation := some ⟨0, annotator.glyph.length, marker.location⟩ }

theorem annotated_annotation (annotator : Annotator) (line : Text) :
    OutputLine.annotation (annotator.annotated line)
      = (Marker.match? line).map fun marker => ⟨0, annotator.glyph.length, marker.location⟩ := by
  unfold annotated
  cases Marker.match? line with
  | none => rfl
  | some marker => rfl

theorem annotateLine_eq (annotator : Annotator) (line : Text)
    (h : ∀ marker, Marker.match? line = some marker → marker.isShort = true) :
    annotator.annotateLine? ⟨line, none⟩ = some (annotator.annotated line) := by
  simp only [annotateLine?, Option.isSome_none, Bool.false_eq_true, if_false, Marker.read,
    annotated]
  cases hmatch : Marker.match? line with
  | none => rfl
  | some marker => simp only [h marker hmatch, if_true]

/-- Output whose markers are short is annotated line by line. -/
theorem annotate_eq (annotator : Annotator) (output : Text) (h : output.ShortMarkers) :
    annotator.annotate (.ofText output)
      = .ok ⟨(Text.lines output).map annotator.annotated⟩ := by
  have hlines : ∀ line ∈ (Document.ofText output).lines,
      annotator.annotateLine? line = some (annotator.annotated line.text) := by
    intro line hline
    rcases List.mem_map.mp hline with ⟨text, htext, rfl⟩
    exact annotateLine_eq annotator text (h text htext)
  rw [annotate, annotate?, mapM_eq_some hlines, Document.ofText, List.map_map]
  rfl

-- The place of an annotated line is that of the marker it began with.
theorem location_of_annotateLine (annotator : Annotator) (line : Text) (annotated : OutputLine)
    (mark : Annotation) (h : annotator.annotateLine? ⟨line, none⟩ = some annotated)
    (hmark : annotated.annotation = some mark) :
    ∃ marker, Marker.match? line = some marker ∧ mark.location = marker.location := by
  simp only [annotateLine?, Option.isSome_none, Bool.false_eq_true, if_false, Marker.read] at h
  cases hmatch : Marker.match? line with
  | none =>
      simp only [hmatch, Option.some.injEq] at h
      rw [← h] at hmark
      exact absurd hmark (by simp only [reduceCtorEq, not_false_eq_true])
  | some marker =>
      refine ⟨marker, rfl, ?_⟩
      by_cases hshort : marker.isShort = true
      · simp only [hmatch, hshort, if_true, Option.some.injEq] at h
        rw [← h] at hmark
        rw [← Option.some.inj hmark]
      · simp only [hmatch, hshort, Bool.false_eq_true, if_false, reduceCtorEq] at h

/-- The annotations of output are those of the markers in its lines. -/
theorem exists_marker_of_annotate (annotator : Annotator) (output : Text) (document : Document)
    (h : annotator.annotate (.ofText output) = .ok document) (row : Nat) (mark : Annotation)
    (hmem : (row, mark) ∈ document.annotations) :
    ∃ line ∈ Text.lines output, ∃ marker, Marker.match? line = some marker
      ∧ mark.location = marker.location := by
  unfold annotate annotate? at h
  cases hlines : (Document.ofText output).lines.mapM annotator.annotateLine? with
  | none =>
      simp only [hlines, Option.map_none, reduceCtorEq] at h
  | some lines =>
      simp only [hlines, Option.map_some, Except.ok.injEq] at h
      rw [← h] at hmem
      rcases Document.mem_annotationsFrom lines 0 row mark hmem with ⟨annotated, hannotated, ha⟩
      rcases of_mem_mapM _ _ lines hlines annotated hannotated with ⟨plain, hplain, hline⟩
      rcases List.mem_map.mp hplain with ⟨line, hline', rfl⟩
      exact ⟨line, hline', location_of_annotateLine annotator line annotated mark hline ha⟩

end Annotator

end QueryDesk
