import QueryDesk.Proofs.Query.Spelling

/-!
# Labels read back

A location is written with colons only, and its numbers in ASCII without zeros in front.
What is written is the spelling of a marker but for the last colon, so with a colon after
it the location is read again, whatever comes next: no text after a colon makes the
marker longer but one blank.

Reading gives only locations that can be written so. A marker may be spelled in other
ways than its location is written, with points, with zeros in front, or with digits of
another script, but its numbers are still those of short runs.

## Main definitions

* `Location.Legal`: A location that a marker can name.
* `Location.spelling`: A location as a marker is spelled.

## Theorems

* `label_append`: A label with a colon after it is a spelled marker.
* `Location.Legal.proper`: The label of a legal location is spelled as a marker is.
* `Spelling.legal_location`: A marker with short runs names a legal location.
* `label_reads_back`: A location is read from its label.
-/

namespace QueryDesk

namespace Location

def numbers (location : Location) : List Int :=
  location.line :: location.column :: (location.endLine.toList ++ location.endColumn.toList)

/-- A location that a marker can name: its path can be one of a marker, its numbers are not
    negative and have at most 4300 digits, and an end has both its numbers. -/
structure Legal (location : Location) : Prop where
  path : Marker.IsPath location.path
  numbers : ∀ n ∈ location.numbers, 0 ≤ n ∧ n < Binary64.tenTo 4300
  ends : location.endLine.isSome = location.endColumn.isSome

/-- A line and a column as they are written in a label. -/
def spelledPair (line column : Int) : Marker.SpelledPair :=
  ⟨⟨Text.ofInt line, Text.ofInt column⟩, ':'⟩

/-- A location as a marker is spelled. -/
def spelling (location : Location) : Marker.Spelling where
  path := location.path
  start := spelledPair location.line location.column
  stop :=
    match location.endLine, location.endColumn with
    | some line, some column => some (spelledPair line column)
    | _, _ => none

/-- A label with a colon after it is a spelled marker. -/
theorem label_append (location : Location) : location.label ++ [':'] = location.spelling.text := by
  rcases location with ⟨path, line, column, endLine, endColumn⟩
  cases endLine <;> cases endColumn <;>
    simp only [label, spelling, spelledPair, Marker.Spelling.text, Marker.SpelledPair.text,
      Marker.SpelledPair.range, List.append_assoc, List.cons_append, List.nil_append]

/-! ## Numbers of a legal location -/

theorem isRun_ofInt {n : Int} (h : 0 ≤ n) : Marker.IsRun (Text.ofInt n) := by
  rcases Int.eq_ofNat_of_zero_le h with ⟨m, rfl⟩
  exact ⟨Text.ofNat_ne_nil m, fun c hc => Text.isDigit_ascii (Text.ascii_of_mem_ofNat hc)⟩

theorem length_ofInt_le {n : Int} {k : Nat} (hk : 0 < k) (h : 0 ≤ n)
    (hlt : n < Binary64.tenTo k) : (Text.ofInt n).length ≤ k := by
  rcases Int.eq_ofNat_of_zero_le h with ⟨m, rfl⟩
  exact (Text.length_ofNat_le_iff m hk).mpr (Int.ofNat_lt.mp hlt)

theorem decimal_ofInt {n : Int} (h : 0 ≤ n) : (Text.decimal (Text.ofInt n) : Int) = n := by
  rcases Int.eq_ofNat_of_zero_le h with ⟨m, rfl⟩
  exact congrArg Nat.cast ((Text.numeralValue_eq_decimal _).symm.trans (Text.numeralValue_ofNat m))

theorem spelledPair_proper {line column : Int} (hline : 0 ≤ line) (hcolumn : 0 ≤ column) :
    (spelledPair line column).Proper :=
  ⟨isRun_ofInt hline, isRun_ofInt hcolumn, Or.inl rfl⟩

/-- Each pair of a label is written from two numbers of the location. -/
theorem exists_pair {location : Location} {pair : Marker.SpelledPair}
    (h : pair ∈ location.spelling.pairs) :
    ∃ line ∈ location.numbers, ∃ column ∈ location.numbers, pair = spelledPair line column := by
  rcases location with ⟨path, line, column, endLine, endColumn⟩
  rcases List.mem_cons.mp h with rfl | hstop
  · exact ⟨line, List.mem_cons_self, column, List.mem_cons_of_mem _ List.mem_cons_self, rfl⟩
  · cases endLine with
    | none => exact absurd hstop List.not_mem_nil
    | some line' =>
        cases endColumn with
        | none => exact absurd hstop List.not_mem_nil
        | some column' =>
            refine ⟨line', ?_, column', ?_, List.mem_singleton.mp hstop⟩ <;>
              simp only [numbers, Option.toList_some, List.cons_append, List.nil_append,
                List.mem_cons, true_or, or_true]

namespace Legal

variable {location : Location}

/-- The label of a legal location is spelled as a marker is. -/
theorem proper (h : location.Legal) : location.spelling.Proper := by
  refine ⟨h.path, fun pair hpair => ?_⟩
  rcases exists_pair hpair with ⟨line, hline, column, hcolumn, rfl⟩
  exact spelledPair_proper (h.numbers line hline).1 (h.numbers column hcolumn).1

theorem short (h : location.Legal) : ∀ run ∈ location.spelling.runs, run.length ≤ 4300 := by
  intro run hrun
  rcases List.mem_flatMap.mp hrun with ⟨pair, hpair, hrun⟩
  rcases exists_pair hpair with ⟨line, hline, column, hcolumn, rfl⟩
  have hlength : ∀ n ∈ location.numbers, (Text.ofInt n).length ≤ 4300 := by
    intro n hn
    rcases h.numbers n hn with ⟨hzero, hlt⟩
    exact length_ofInt_le (by decide) hzero hlt
  rcases List.mem_cons.mp hrun with rfl | hrun
  · exact hlength line hline
  · rw [List.mem_singleton.mp hrun]
    exact hlength column hcolumn

/-- The label of a legal location spells the location. -/
theorem location_spelling (h : location.Legal) : location.spelling.location = location := by
  have hnumber : ∀ n ∈ location.numbers, (Text.decimal (Text.ofInt n) : Int) = n :=
    fun n hn => decimal_ofInt (h.numbers n hn).1
  have hends := h.ends
  rcases location with ⟨path, line, column, endLine, endColumn⟩
  cases endLine with
  | none =>
      cases endColumn with
      | none =>
          simp only [Location.numbers, Option.toList_none, List.append_nil,
            List.forall_mem_cons] at hnumber
          simp only [spelling, spelledPair, Marker.Spelling.location, Option.map_none, hnumber]
      | some column' => exact absurd hends Bool.false_ne_true
  | some line' =>
      cases endColumn with
      | none => exact absurd hends.symm Bool.false_ne_true
      | some column' =>
          simp only [Location.numbers, Option.toList_some, List.cons_append, List.nil_append,
            List.forall_mem_cons] at hnumber
          simp only [spelling, spelledPair, Marker.Spelling.location, Option.map_some, hnumber]

end Legal

end Location

namespace Marker

/-- The numbers of the location that is spelled are those that its runs write. -/
theorem Spelling.numbers_location (spelling : Spelling) :
    spelling.location.numbers = spelling.runs.map fun run => (Text.decimal run : Int) := by
  rcases spelling with ⟨path, start, stop⟩
  cases stop <;> rfl

theorem decimal_lt {run : Text} {k : Nat} (h : run.length ≤ k) :
    (Text.decimal run : Int) < Binary64.tenTo k := by
  have hlt := Text.numeralValue_lt run
  rw [Text.numeralValue_eq_decimal] at hlt
  exact Int.ofNat_lt.mpr (Nat.lt_of_lt_of_le hlt (Nat.pow_le_pow_right (by decide) h))

/-- A marker with short runs names a legal location. -/
theorem Spelling.legal_location {spelling : Spelling} (h : spelling.Proper)
    (hshort : ∀ run ∈ spelling.runs, run.length ≤ 4300) : spelling.location.Legal := by
  refine ⟨h.path, fun n hn => ?_, ?_⟩
  · rw [numbers_location] at hn
    rcases List.mem_map.mp hn with ⟨run, hrun, rfl⟩
    exact ⟨Int.natCast_nonneg _, decimal_lt (hshort run hrun)⟩
  · simp only [location, Option.isSome_map]

/-- A legal location is read from its label with a colon after it, whatever comes next. -/
theorem read_label {location : Location} (h : location.Legal) (rest : Text) :
    read (location.label ++ ':' :: rest)
      = .marked location (location.label.length + 1 + gap rest) := by
  -- The colon after the label is the last of the spelling.
  have htext := location.label_append
  have hbegins : location.spelling.Begins (location.label ++ ':' :: rest) rest := by
    refine ⟨h.proper, ?_⟩
    rw [← htext, List.append_assoc]
    rfl
  refine (read_eq_marked_iff _ _ _).mpr
    ⟨location.spelling, rest, hbegins, h.short, h.location_spelling.symm, ?_⟩
  rw [← htext, List.length_append]
  rfl

/-- A legal location is read from its label with a colon after it, whatever comes next, and
    the marker takes the label, the colon and the one blank after it. What is read from any
    text is a legal location, so it is read again from its label. -/
theorem label_reads_back (location : Location) :
    (location.Legal → ∀ rest : Text,
        read (location.label ++ ':' :: rest)
          = .marked location (location.label.length + 1 + gap rest))
      ∧ ∀ t length, read t = .marked location length →
        location.Legal
          ∧ read (location.label ++ [':']) = .marked location (location.label.length + 1) := by
  refine ⟨read_label, fun t length h => ?_⟩
  rcases (read_eq_marked_iff _ _ _).mp h with ⟨spelling, rest, hbegins, hshort, rfl, -⟩
  have hlegal := Spelling.legal_location hbegins.proper hshort
  exact ⟨hlegal, read_label hlegal []⟩

/-- A range that was read with points, zeros in front and digits of another script is read
    again from its label, with a tab and something like a second marker after it. -/
theorem label_reads_back_range :
    let location : Location := ⟨"a-1.b c", 0, 12, some 3, some 45⟩
    location.label = "a-1.b c:0:12-3:45"
      ∧ read "a-1.b c:00.12-3.\u0664\u0665: x" = .marked location 20 ∧ location.Legal
      ∧ read (location.label ++ ':' :: "\t9:9: x") = .marked location 19
      ∧ read (location.label ++ [':']) = .marked location 18 := by
  intro location
  have hread : read "a-1.b c:00.12-3.\u0664\u0665: x" = .marked location 20 := by decide
  rcases (label_reads_back location).2 _ _ hread with ⟨hlegal, hagain⟩
  exact ⟨by decide, hread, hlegal, (label_reads_back location).1 hlegal "\t9:9: x", hagain⟩

end Marker

end QueryDesk
