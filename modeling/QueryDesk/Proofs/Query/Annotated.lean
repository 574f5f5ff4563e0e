import QueryDesk.Proofs.Collect
import QueryDesk.Proofs.Query.Spelling
import QueryDesk.Query.Document

/-!
# What annotating keeps

Annotating goes through a document line by line. A line that has its annotation already
or begins with no marker stays as it is. Of a line that begins with one only the marker
goes, and the glyph and the separator come in its place.

What comes in its place may look like a marker itself, with a glyph that is a path or a
separator that ends in a colon, and so may the rest of the line behind it. That is of no
account later on: the line has its annotation, and a line that has one is never read
again. So a document that was annotated stays the same under any annotator.

## Main definitions

* `Annotator.Replaces`: What becomes of a line.

## Theorems

* `exists_split_of_begins`: The whole marker at the start of a line and what is behind it.
* `annotateLine_replaces`: What becomes of a line with short numbers.
* `annotateLine_replaced`: A line that was annotated stays as it is.
* `annotate_keeps_rest`: What becomes of a document.
-/

namespace QueryDesk

namespace Marker

/-- A line that begins with a spelled marker is the whole marker that is read and what is
    behind it. -/
theorem exists_split_of_begins {spelling : Spelling} {t rest : Text}
    (h : spelling.Begins t rest) (hshort : ∀ run ∈ spelling.runs, run.length ≤ 4300) :
    ∃ marker behind : Text, t = marker ++ behind
      ∧ read t = .marked spelling.location marker.length := by
  have hread := (read_eq_marked_iff t _ _).mpr ⟨spelling, rest, h, hshort, rfl, rfl⟩
  have hlength : spelling.text.length + gap rest ≤ t.length := by
    have hgap := gap_le_length rest
    rw [h.eq, List.length_append]
    omega
  refine ⟨t.take (spelling.text.length + gap rest), t.drop (spelling.text.length + gap rest),
    (List.take_append_drop _ t).symm, ?_⟩
  rw [hread, List.length_take, Nat.min_eq_left hlength]

end Marker

namespace Annotator

/-- What becomes of a line. It stays as it is when it has an annotation already or begins
    with no marker. Otherwise the glyph and the separator come in place of the marker, and
    the glyph is annotated with the location of the marker. -/
inductive Replaces (annotator : Annotator) : OutputLine → OutputLine → Prop
  | annotated (text : Text) (mark : Annotation) :
      Replaces annotator ⟨text, some mark⟩ ⟨text, some mark⟩
  | plain (text : Text) (hplain : ∀ spelling rest, ¬ Marker.Spelling.Begins spelling text rest) :
      Replaces annotator ⟨text, none⟩ ⟨text, none⟩
  | marked (spelling : Marker.Spelling) (marker behind rest : Text)
      (hbegins : spelling.Begins (marker ++ behind) rest)
      (hread : Marker.read (marker ++ behind) = .marked spelling.location marker.length) :
      Replaces annotator ⟨marker ++ behind, none⟩
        ⟨annotator.glyph ++ annotator.separator ++ behind,
          some ⟨0, annotator.glyph.length, spelling.location⟩⟩

/-- The numbers of a marker at the start of a line are short enough to be converted, unless
    the line is annotated already. -/
def ShortNumbers (line : OutputLine) : Prop :=
  line.annotation = none → ∀ spelling rest, Marker.Spelling.Begins spelling line.text rest →
    ∀ run ∈ spelling.runs, run.length ≤ 4300

/-- A line has short numbers just when it is annotated already or reading it is not
    refused. -/
theorem shortNumbers_iff (line : OutputLine) :
    ShortNumbers line ↔ (line.annotation = none → Marker.read line.text ≠ .tooLong) := by
  refine forall_congr' fun _ => ?_
  rw [Ne, Marker.read_eq_tooLong_iff]
  constructor
  · rintro hshort ⟨spelling, rest, hbegins, run, hrun, hlong⟩
    exact absurd (hshort spelling rest hbegins run hrun) (Nat.not_le_of_lt hlong)
  · intro hlong spelling rest hbegins run hrun
    exact Nat.le_of_not_lt fun hlt => hlong ⟨spelling, rest, hbegins, run, hrun, hlt⟩

/-- What becomes of a line with short numbers. -/
theorem annotateLine_replaces (annotator : Annotator) (line : OutputLine)
    (h : ShortNumbers line) :
    ∃ after, annotator.annotateLine? line = some after ∧ annotator.Replaces line after := by
  rcases line with ⟨text, mark⟩
  cases mark with
  | some mark => exact ⟨_, rfl, .annotated text mark⟩
  | none =>
      by_cases hbegins : ∃ spelling rest, Marker.Spelling.Begins spelling text rest
      · rcases hbegins with ⟨spelling, rest, hbegins⟩
        rcases Marker.exists_split_of_begins hbegins (h rfl spelling rest hbegins) with
          ⟨marker, behind, rfl, hread⟩
        refine ⟨_, ?_, .marked spelling marker behind rest hbegins hread⟩
        simp only [annotateLine?, Option.isSome_none, Bool.false_eq_true, if_false, hread,
          List.drop_left]
      · have hread := (Marker.read_eq_plain_iff text).mpr hbegins
        refine ⟨⟨text, none⟩, ?_, .plain text fun spelling rest h => hbegins ⟨spelling, rest, h⟩⟩
        simp only [annotateLine?, Option.isSome_none, Bool.false_eq_true, if_false, hread]

/-- A line that was annotated stays as it is. -/
theorem annotateLine_replaced {annotator : Annotator} {line after : OutputLine}
    (h : annotator.Replaces line after) (other : Annotator) :
    other.annotateLine? after = some after := by
  cases h with
  | annotated text mark => rfl
  | plain text hplain =>
      have hread := (Marker.read_eq_plain_iff text).mpr fun ⟨spelling, rest, h⟩ =>
        hplain spelling rest h
      simp only [annotateLine?, Option.isSome_none, Bool.false_eq_true, if_false, hread]
  | marked spelling marker behind rest hbegins hread => rfl

/-- A document whose markers have short numbers can be annotated. Its lines stay in number
    and order: each stays as it is, or only its marker is replaced. Annotating the result
    again, with whatever glyph and separator, changes nothing. -/
theorem annotate_keeps_rest (annotator : Annotator) (document : Document)
    (h : ∀ line ∈ document.lines, ShortNumbers line) :
    ∃ result, annotator.annotate document = .ok result
      ∧ result.lines.length = document.lines.length
      ∧ List.Forall₂ annotator.Replaces document.lines result.lines
      ∧ ∀ other : Annotator, other.annotate result = .ok result := by
  rcases mapM_forall₂ fun line hline => annotateLine_replaces annotator line (h line hline) with
    ⟨lines, hlines, hall⟩
  refine ⟨⟨lines⟩, ?_, hall.length_eq.symm, hall, fun other => ?_⟩
  · simp only [annotate, annotate?, hlines, Option.map_some]
  · -- No line of the result is read as a marker that was not read before.
    have hsame : ∀ after ∈ lines, other.annotateLine? after = some (id after) := by
      intro after hafter
      rcases List.forall₂_iff_get.mp hall with ⟨hlength, hget⟩
      rcases List.mem_iff_getElem.mp hafter with ⟨k, hk, rfl⟩
      exact annotateLine_replaced (hget k (hlength ▸ hk) hk) other
    simp only [annotate, annotate?, mapM_eq_some hsame, List.map_id, Option.map_some]

/-- A glyph, a separator, a text that was annotated and the rest of a line that all look like
    markers: only the marker of the line without an annotation is replaced, and nothing is
    replaced after that. -/
theorem annotate_keeps_rest_markers :
    let annotator : Annotator := ⟨"g.go:1:1:", "s.go:2:2:"⟩
    let kept : List OutputLine :=
      [⟨"a.go:5:6: x", some ⟨0, 1, ⟨"k.go", 3, 4, none, none⟩⟩⟩, ⟨" b.go:7:8: y", none⟩]
    let document : Document := ⟨kept ++ [⟨"b.go:7.8-9.10: c.go:1:2: z", none⟩]⟩
    let result : Document := ⟨kept ++ [⟨"g.go:1:1:s.go:2:2:c.go:1:2: z",
      some ⟨0, 9, ⟨"b.go", 7, 8, some 9, some 10⟩⟩⟩]⟩
    (∀ line ∈ document.lines, ShortNumbers line) ∧ annotator.annotate document = .ok result
      ∧ standard.annotate result = .ok result := by
  intro annotator kept document result
  have hshort : ∀ line ∈ document.lines, ShortNumbers line := by
    simp only [shortNumbers_iff]
    decide
  rcases annotate_keeps_rest annotator document hshort with ⟨found, hfound, -, -, hsame⟩
  have hresult : annotator.annotate document = .ok result := by rfl
  rw [hresult] at hfound
  refine ⟨hshort, hresult, ?_⟩
  rw [Except.ok.inj hfound]
  exact hsame standard

end Annotator

end QueryDesk
