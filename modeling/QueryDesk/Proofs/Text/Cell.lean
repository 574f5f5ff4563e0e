import QueryDesk.Proofs.Text.Measure
import QueryDesk.Query.Position
import QueryDesk.Text.Line

/-!
# Cells

An editor shows a carriage return with the line feed after it as one character.
The cells of a text are the parts that are one character there: such pairs, and
all other characters by themselves. Reading a file into an editor and measuring
the file on disk are both maps over the cells, and this is what keeps the two in
step: the reading keeps the last character of each cell, the measuring keeps
its bytes.

The cells of what follows a cell are the cells that follow it, so an offset that
is the sum of the first widths cuts the text between two cells and leaves the
cells after it as they were.

Dropping the carriage return of a pair can make a new pair, of a carriage return
before it. This happens just where two carriage returns stand before a line
feed, and the new pair is what a buffer takes for one break again.

## Main definitions

* `Text.cells`: The parts of a text that are one character in an editor.
* `Text.cellChar`: The character a cell is read as.

## Theorems

* `flatten_cells`: The cells put together are the text.
* `cells_drop`: The cells after some cells.
* `unpair_eq_map`: Reading keeps the last character of each cell.
* `pairedWidths_eq_map`: Measuring keeps the bytes of each cell.
* `total_take_pairedWidths`: The first widths add up to the bytes before a cell.
* `hasPair_unpair`: A pair is left just where two returns stood before a feed.
* `byteLength_unpair_le`, `byteLength_unpair_lt`: Reading never takes more bytes,
  and fewer when there was a pair.
-/

namespace QueryDesk

namespace Text

/-- The parts of a text that are one character in an editor: a carriage return
    with the line feed after it, and every other character by itself. -/
def cells : Text → List Text
  | [] => []
  | '\r' :: '\n' :: rest => ['\r', '\n'] :: cells rest
  | c :: rest => [c] :: cells rest

/-- The character that a cell is read as. -/
def cellChar (cell : Text) : Char :=
  cell.getLastD '\n'

theorem flatten_cells (t : Text) : (cells t).flatten = t := by
  fun_induction cells t with
  | case1 => rfl
  | case2 rest ih =>
      rw [List.flatten_cons, ih]
      rfl
  | case3 c rest hpair ih =>
      rw [List.flatten_cons, ih]
      rfl

/-- The cells after some cells are those of the text after them. -/
theorem cells_drop (t : Text) (k : Nat) :
    cells ((cells t).drop k).flatten = (cells t).drop k := by
  fun_induction cells t generalizing k with
  | case1 =>
      rw [List.drop_nil]
      rfl
  | case2 rest ih =>
      cases k with
      | zero => rw [List.drop_zero, List.flatten_cons, flatten_cells]; rfl
      | succ k => exact ih k
  | case3 c rest hpair ih =>
      cases k with
      | zero =>
          rw [List.drop_zero, List.flatten_cons, flatten_cells]
          exact cells.eq_3 c rest hpair
      | succ k => exact ih k

/-- Reading keeps the last character of each cell. -/
theorem unpair_eq_map (t : Text) : unpair t = (cells t).map cellChar := by
  fun_induction cells t with
  | case1 => rfl
  | case2 rest ih =>
      rw [unpair, ih]
      rfl
  | case3 c rest hpair ih =>
      rw [unpair.eq_3 c rest hpair, ih]
      rfl

/-- Measuring keeps the bytes of each cell. -/
theorem pairedWidths_eq_map (t : Text) :
    Position.pairedWidths (t.map some) = (cells t).map byteLength := by
  fun_induction cells t with
  | case1 => rfl
  | case2 rest ih =>
      rw [List.map_cons, List.map_cons, Position.pairedWidths, ih]
      rfl
  | case3 c rest hpair ih =>
      rw [List.map_cons, Position.pairedWidths.eq_3 c (rest.map some) ?_, ih]
      · rfl
      · -- A pair among the characters of the file is a pair of the text.
        intro more hmore hc
        rcases List.map_eq_cons_iff.mp hmore with ⟨d, tail, hrest, hd, _⟩
        exact hpair tail hc (by rw [hrest, Option.some.inj hd])

theorem measure_flatten (width : Char → Nat) (ts : List Text) :
    measure width ts.flatten = total (ts.map (measure width)) := by
  induction ts with
  | nil => rfl
  | cons t ts ih =>
      rw [List.flatten_cons, measure_append, ih]
      rfl

/-- The first widths add up to the bytes before a cell. -/
theorem total_take_pairedWidths (t : Text) (k : Nat) :
    total ((Position.pairedWidths (t.map some)).take k)
      = byteLength ((cells t).take k).flatten := by
  rw [pairedWidths_eq_map, ← List.map_take, byteLength, measure_flatten]
  rfl

theorem byteLength_take_flatten_mono (ts : List Text) (a b : Nat) (h : a ≤ b) :
    byteLength (ts.take a).flatten ≤ byteLength (ts.take b).flatten := by
  have hsplit : ts.take b = ts.take a ++ (ts.drop a).take (b - a) := by
    rw [← List.take_add, Nat.add_sub_cancel' h]
  rw [hsplit, List.flatten_append, byteLength, byteLength, measure_append]
  exact Nat.le_add_right _ _

-- A text that begins with a pair after reading began with two carriage returns before a line
-- feed.
theorem unpair_eq_feed_cons_iff (t : Text) :
    (∃ more, unpair t = '\n' :: more)
      ↔ (∃ more, t = '\n' :: more) ∨ ∃ more, t = '\r' :: '\n' :: more := by
  fun_cases unpair t with
  | case1 =>
      simp only [List.nil_eq, reduceCtorEq, exists_const, or_self]
  | case2 rest =>
      constructor
      · exact fun _ => Or.inr ⟨rest, rfl⟩
      · exact fun _ => ⟨unpair rest, rfl⟩
  | case3 c rest hpair =>
      constructor
      · rintro ⟨more, hmore⟩
        exact Or.inl ⟨rest, by rw [(List.cons.inj hmore).1]⟩
      · rintro (⟨more, hmore⟩ | ⟨more, hmore⟩)
        · exact ⟨unpair rest, by rw [(List.cons.inj hmore).1]⟩
        · exact absurd (List.cons.inj hmore).2 fun h => hpair more (List.cons.inj hmore).1 h

theorem hasPair_cons_iff (c : Char) (t : Text) :
    hasPair (c :: t) = true ↔ (c = '\r' ∧ ∃ more, t = '\n' :: more) ∨ hasPair t = true := by
  by_cases hpair : c = '\r' ∧ ∃ more, t = '\n' :: more
  · rcases hpair with ⟨rfl, more, rfl⟩
    exact ⟨fun _ => Or.inl ⟨rfl, more, rfl⟩, fun _ => rfl⟩
  · rw [hasPair.eq_3 c t fun more hc hmore => hpair ⟨hc, more, hmore⟩]
    exact ⟨Or.inr, fun h => h.resolve_left hpair⟩

-- Two carriage returns before a line feed, at the start of a text or later.
theorem contains_double_cons_iff (c : Char) (t : Text) :
    contains "\r\r\n" (c :: t) = true
      ↔ (c = '\r' ∧ ∃ more, t = '\r' :: '\n' :: more) ∨ contains "\r\r\n" t = true := by
  have hprefix : List.isPrefixOf ['\r', '\r', '\n'] (c :: t) = true
      ↔ c = '\r' ∧ ∃ more, t = '\r' :: '\n' :: more := by
    rw [List.isPrefixOf_iff_prefix]
    constructor
    · rintro ⟨more, hmore⟩
      exact ⟨(List.cons.inj hmore).1.symm, more, (List.cons.inj hmore).2.symm⟩
    · rintro ⟨rfl, more, rfl⟩
      exact ⟨more, rfl⟩
  rw [← hprefix]
  exact Bool.or_eq_true_iff

/-- A pair is left after reading just where two carriage returns stood before a
    line feed. -/
theorem hasPair_unpair (t : Text) : hasPair (unpair t) = contains "\r\r\n" t := by
  rw [Bool.eq_iff_iff]
  fun_induction unpair t with
  | case1 => exact Iff.rfl
  | case2 rest ih =>
      rw [hasPair_cons_iff, ih, contains_double_cons_iff, contains_double_cons_iff]
      constructor
      · rintro (⟨hc, _⟩ | h)
        · exact absurd hc (by decide)
        · exact Or.inr (Or.inr h)
      · rintro (⟨_, more, hmore⟩ | ⟨hc, _⟩ | h)
        · exact absurd (List.cons.inj hmore).1 (by decide)
        · exact absurd hc (by decide)
        · exact Or.inr h
  | case3 c rest hpair ih =>
      rw [hasPair_cons_iff, ih, contains_double_cons_iff, unpair_eq_feed_cons_iff]
      constructor
      · rintro (⟨hc, ⟨more, hmore⟩ | h⟩ | h)
        · exact absurd hmore fun h => hpair more hc h
        · exact Or.inl ⟨hc, h⟩
        · exact Or.inr h
      · rintro (⟨hc, h⟩ | h)
        · exact Or.inl ⟨hc, Or.inr h⟩
        · exact Or.inr h

-- Two carriage returns before a line feed are not in the end of a text that holds none.
theorem contains_double_append (s t : Text) (h : contains "\r\r\n" (s ++ t) = false) :
    contains "\r\r\n" t = false := by
  induction s with
  | nil => exact h
  | cons c s ih =>
      refine ih ?_
      rw [← Bool.not_eq_true] at h ⊢
      exact fun hrest => h ((contains_double_cons_iff c (s ++ t)).mpr (Or.inr hrest))

-- A text without pairs is read as it stands.
theorem unpair_eq_self (t : Text) (h : hasPair t = false) : unpair t = t := by
  fun_induction unpair t with
  | case1 => rfl
  | case2 rest ih => exact absurd (show true = false from h) (by decide)
  | case3 c rest hpair ih =>
      rw [hasPair.eq_3 c rest hpair] at h
      rw [ih h]

theorem byteLength_unpair_le (t : Text) : byteLength (unpair t) ≤ byteLength t := by
  fun_induction unpair t with
  | case1 => exact Nat.le_refl _
  | case2 rest ih => exact Nat.le_trans (Nat.add_le_add_left ih _) (Nat.le_add_left _ _)
  | case3 c rest hpair ih => exact Nat.add_le_add_left ih _

/-- Reading a text with a pair takes fewer bytes. -/
theorem byteLength_unpair_lt (t : Text) (h : hasPair t = true) :
    byteLength (unpair t) < byteLength t := by
  fun_induction unpair t with
  | case1 => exact absurd h (by decide)
  | case2 rest ih =>
      refine Nat.lt_of_le_of_lt (Nat.add_le_add_left (byteLength_unpair_le rest) _) ?_
      exact Nat.lt_add_of_pos_left (byteWidth_pos '\r')
  | case3 c rest hpair ih =>
      rw [hasPair.eq_3 c rest hpair] at h
      exact Nat.add_lt_add_left (ih h) _

end Text

end QueryDesk
