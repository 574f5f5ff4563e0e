import QueryDesk.Proofs.Text.Cell

/-!
# Lines of a text

The lines of a text hold its characters without the breaks, so no line holds a
break of any kind. A text without breaks is one line, and one without carriage
returns is read as it stands.

## Theorems

* `not_isLineBreak_of_mem_lines`: No line holds a break.
* `lines_eq_singleton`: A text without breaks is one line.
* `normalizeBreaks_eq_self`: A text without carriage returns is left as it is.
* `lines_normalizeBreaks`: The lines do not depend on how breaks are written.
* `mem_of_mem_lines`: A line has characters of the text only.
-/

namespace QueryDesk

namespace Text

/-- No line holds a break. -/
theorem not_isLineBreak_of_mem_lines (t line : Text) (hline : line ∈ lines t) (c : Char)
    (hc : c ∈ line) : isLineBreak c = false := by
  fun_induction lines t generalizing line with
  | case1 => exact absurd hline List.not_mem_nil
  | case2 rest ih =>
      rcases List.mem_cons.mp hline with rfl | hline
      · exact absurd hc List.not_mem_nil
      · exact ih line hline hc
  | case3 d rest _ hbreak ih =>
      rcases List.mem_cons.mp hline with rfl | hline
      · exact absurd hc List.not_mem_nil
      · exact ih line hline hc
  | case4 d rest _ hbreak hnil ih =>
      rw [List.mem_singleton.mp hline, List.mem_singleton] at hc
      rw [hc, Bool.eq_false_iff]
      exact hbreak
  | case5 d rest _ hbreak first more hlines ih =>
      rw [hlines] at ih
      rcases List.mem_cons.mp hline with rfl | hline
      · rcases List.mem_cons.mp hc with rfl | hc
        · rw [Bool.eq_false_iff]
          exact hbreak
        · exact ih first List.mem_cons_self hc
      · exact ih line (List.mem_cons_of_mem first hline) hc

/-- A text without breaks is one line. -/
theorem lines_eq_singleton (t : Text) (hne : t ≠ []) (h : ∀ c ∈ t, isLineBreak c = false) :
    lines t = [t] := by
  fun_induction lines t with
  | case1 => exact absurd rfl hne
  | case2 rest ih => exact absurd (h '\r' List.mem_cons_self) (by decide)
  | case3 d rest _ hbreak ih => exact absurd (h d List.mem_cons_self) (by rw [hbreak]; decide)
  | case4 d rest _ hbreak hnil ih =>
      cases rest with
      | nil => rfl
      | cons e rest =>
          rw [ih (List.cons_ne_nil e rest) fun c hc => h c (List.mem_cons_of_mem d hc)] at hnil
          exact absurd hnil (List.cons_ne_nil _ _)
  | case5 d rest _ hbreak first more hlines ih =>
      cases rest with
      | nil => exact absurd hlines.symm (List.cons_ne_nil first more)
      | cons e rest =>
          rw [ih (List.cons_ne_nil e rest) fun c hc => h c (List.mem_cons_of_mem d hc)] at hlines
          rw [← (List.cons.inj hlines).1, ← (List.cons.inj hlines).2]

-- For texts that are given, where what is left can be computed.
theorem not_isLineBreak_of_any {t : Text} (h : t.any isLineBreak = false) :
    ∀ c ∈ t, isLineBreak c = false :=
  fun c hc => Bool.eq_false_iff.mpr (List.any_eq_false.mp h c hc)

/-- A text without carriage returns is left as it is. -/
theorem normalizeBreaks_eq_self (t : Text) (h : '\r' ∉ t) : normalizeBreaks t = t := by
  fun_induction normalizeBreaks t with
  | case1 => rfl
  | case2 rest ih => exact absurd List.mem_cons_self h
  | case3 c rest _ ih =>
      have hc : c ≠ '\r' := fun heq => h (by rw [heq]; exact List.mem_cons_self)
      rw [if_neg hc, ih fun hmem => h (List.mem_cons_of_mem c hmem)]

/-- A text has the same lines whichever characters its breaks are written with. -/
theorem lines_normalizeBreaks (t : Text) : lines (normalizeBreaks t) = lines t := by
  fun_induction normalizeBreaks t with
  | case1 => rfl
  | case2 rest ih =>
      rw [lines.eq_3 '\n' _ fun _ hc _ => absurd hc (by decide), if_pos (by decide), ih, lines]
  | case3 c rest hpair ih =>
      rw [lines.eq_3 c rest hpair]
      by_cases hc : c = '\r'
      · rw [if_pos hc, lines.eq_3 '\n' _ fun _ hc _ => absurd hc (by decide), if_pos (by decide),
          if_pos (by rw [hc]; decide), ih]
      · rw [if_neg hc, lines.eq_3 c _ fun _ heq _ => hc heq, ih]

/-- The characters of a line are those of the text. -/
theorem mem_of_mem_lines {t line : Text} (hline : line ∈ lines t) {c : Char} (hc : c ∈ line) :
    c ∈ t := by
  fun_induction lines t generalizing line with
  | case1 => exact absurd hline List.not_mem_nil
  | case2 rest ih =>
      rcases List.mem_cons.mp hline with rfl | hline
      · exact absurd hc List.not_mem_nil
      · exact List.mem_cons_of_mem _ (List.mem_cons_of_mem _ (ih hline hc))
  | case3 d rest _ hbreak ih =>
      rcases List.mem_cons.mp hline with rfl | hline
      · exact absurd hc List.not_mem_nil
      · exact List.mem_cons_of_mem d (ih hline hc)
  | case4 d rest _ hbreak hnil ih =>
      rw [List.mem_singleton.mp hline, List.mem_singleton] at hc
      exact hc ▸ List.mem_cons_self
  | case5 d rest _ hbreak first more hlines ih =>
      rw [hlines] at ih
      rcases List.mem_cons.mp hline with rfl | hline
      · rcases List.mem_cons.mp hc with rfl | hc
        · exact List.mem_cons_self
        · exact List.mem_cons_of_mem d (ih List.mem_cons_self hc)
      · exact List.mem_cons_of_mem d (ih (List.mem_cons_of_mem first hline) hc)

end Text

end QueryDesk
