import QueryDesk.Desk.Buffer
import QueryDesk.Proofs.Text.Cell

/-!
# What a buffer makes of a text

A buffer that is filled with a text breaks it into blocks, and what stands in a
source file again is the text with each break as a line feed. Where the text
holds no pair this replaces single characters, so it keeps the count. A pair
becomes one break, so a text that holds one loses a character.

Neither of the two characters of a pair is ever in a buffer's content: every way
to put text in breaks it first.

## Main definitions

* `Buffer.breakChar`: A character as it stands in a buffer's content.
* `Buffer.shownChar`: A character of a file as the editor gives it back.

## Theorems

* `broken_eq_map`: A text without pairs is broken character by character.
* `length_broken_le`, `length_broken_lt`: Breaking merges pairs and nothing else.
* `Unbroken.insert`: Text put in keeps the content free of returns and feeds.
* `sourceText_no_return`: The text of a buffer holds no carriage return.
* `blockBreak_not_mem_sourceText`: Nor does it hold a paragraph separator.
* `byteLength_source_le`: The text given back never takes more bytes.
* `unitLength_take_sourceText`: The text given back takes the buffer's units.
-/

namespace QueryDesk

namespace Buffer

/-- A character as it stands in a buffer's content when no pair begins with
    it. -/
def breakChar (c : Char) : Char :=
  if c = '\r' ∨ c = '\n' then blockBreak else c

/-- A character of a text as it is given back by the buffer filled with it. -/
def shownChar (c : Char) : Char :=
  sourceChar (breakChar c)

theorem broken_eq_map (t : Text) (h : t.hasPair = false) : broken t = t.map breakChar := by
  fun_induction broken t with
  | case1 => rfl
  | case2 rest ih => exact absurd (show true = false from h) (by decide)
  | case3 c rest hpair ih =>
      rw [Text.hasPair.eq_3 c rest hpair] at h
      exact congrArg _ (ih h)

theorem length_broken_le (t : Text) : (broken t).length ≤ t.length := by
  fun_induction broken t with
  | case1 => exact Nat.le_refl _
  | case2 rest ih => exact Nat.succ_le_succ (Nat.le_succ_of_le ih)
  | case3 c rest hpair ih => exact Nat.succ_le_succ ih

/-- A pair becomes one break. -/
theorem length_broken_lt (t : Text) (h : t.hasPair = true) : (broken t).length < t.length := by
  fun_induction broken t with
  | case1 => exact absurd h (by decide)
  | case2 rest ih => exact Nat.succ_lt_succ (Nat.lt_succ_of_le (length_broken_le rest))
  | case3 c rest hpair ih =>
      rw [Text.hasPair.eq_3 c rest hpair] at h
      exact Nat.succ_lt_succ (ih h)

theorem broken_ne_nil (t : Text) (h : t ≠ []) : broken t ≠ [] := by
  fun_cases broken t with
  | case1 => exact absurd rfl h
  | case2 rest => exact List.cons_ne_nil _ _
  | case3 c rest hpair => exact List.cons_ne_nil _ _

/-! ## Content without returns and feeds -/

/-- The content of the buffer holds neither a carriage return nor a line
    feed. -/
def Unbroken (buffer : Buffer) : Prop :=
  ∀ c ∈ buffer.content, c ≠ '\r' ∧ c ≠ '\n'

theorem blockBreak_ne : blockBreak ≠ '\r' ∧ blockBreak ≠ '\n' := by
  decide

theorem not_break_of_mem_broken (t : Text) (c : Char) (h : c ∈ broken t) :
    c ≠ '\r' ∧ c ≠ '\n' := by
  fun_induction broken t with
  | case1 => exact absurd h List.not_mem_nil
  | case2 rest ih =>
      rcases List.mem_cons.mp h with rfl | h
      · exact blockBreak_ne
      · exact ih h
  | case3 d rest hpair ih =>
      rcases List.mem_cons.mp h with rfl | h
      · by_cases hd : d = '\r' ∨ d = '\n'
        · rw [if_pos hd]
          exact blockBreak_ne
        · rw [if_neg hd]
          exact not_or.mp hd
      · exact ih h

theorem unbroken_ofText (t : Text) : (ofText t).Unbroken :=
  fun c h => not_break_of_mem_broken t c h

/-- Text put in keeps the content free of returns and feeds: what stays was free
    of them and what comes in is broken. -/
theorem Unbroken.insert {buffer : Buffer} (h : buffer.Unbroken) (t : Text) :
    (buffer.insert t).Unbroken := by
  intro c hc
  rcases List.mem_append.mp hc with hc | hc
  · rcases List.mem_append.mp hc with hc | hc
    · exact h c (List.mem_of_mem_take hc)
    · exact not_break_of_mem_broken t c hc
  · exact h c (List.mem_of_mem_drop hc)

theorem place_content (buffer : Buffer) (position : Int) :
    (buffer.place position).content = buffer.content := by
  unfold place
  split <;> rfl

theorem extend_content (buffer : Buffer) (position : Int) :
    (buffer.extend position).content = buffer.content := by
  unfold extend
  split <;> rfl

theorem select_content (buffer : Buffer) (start : Int) (stop : Option Int) :
    (buffer.select start stop).content = buffer.content := by
  cases stop with
  | none => exact place_content buffer start
  | some stop => exact (extend_content (buffer.place start) stop).trans (place_content buffer start)

theorem place_modified (buffer : Buffer) (position : Int) :
    (buffer.place position).modified = buffer.modified := by
  unfold place
  split <;> rfl

theorem select_modified (buffer : Buffer) (start : Int) (stop : Option Int) :
    (buffer.select start stop).modified = buffer.modified := by
  cases stop with
  | none => exact place_modified buffer start
  | some stop =>
      refine Eq.trans ?_ (place_modified buffer start)
      unfold select extend
      simp only
      split <;> rfl

theorem Unbroken.select {buffer : Buffer} (h : buffer.Unbroken) (start : Int)
    (stop : Option Int) : (buffer.select start stop).Unbroken := by
  intro c hc
  rw [select_content] at hc
  exact h c hc

/-- The text of a buffer holds no carriage return. -/
theorem Unbroken.sourceText_no_return {buffer : Buffer} (h : buffer.Unbroken) :
    '\r' ∉ buffer.sourceText := by
  intro hc
  rcases List.mem_map.mp hc with ⟨c, hmem, hsource⟩
  unfold sourceChar at hsource
  by_cases hbreak : c = blockBreak
  · rw [if_pos hbreak] at hsource
    exact absurd hsource (by decide)
  · rw [if_neg hbreak] at hsource
    exact (h c hmem).1 hsource

/-- The text of a buffer holds no paragraph separator. -/
theorem blockBreak_not_mem_sourceText (buffer : Buffer) : blockBreak ∉ buffer.sourceText := by
  intro hc
  rcases List.mem_map.mp hc with ⟨c, _, hsource⟩
  unfold sourceChar at hsource
  by_cases hbreak : c = blockBreak
  · rw [if_pos hbreak] at hsource
    exact absurd hsource (by decide)
  · rw [if_neg hbreak] at hsource
    exact hbreak hsource

/-! ## Bytes and units of the text given back -/

theorem byteWidth_sourceChar_le (c : Char) :
    Text.byteWidth (sourceChar c) ≤ Text.byteWidth c := by
  unfold sourceChar
  split
  · have hone : Text.byteWidth '\n' = 1 := by decide
    rw [hone]
    exact Text.byteWidth_pos c
  · exact Nat.le_refl _

theorem byteWidth_shownChar_le (c : Char) : Text.byteWidth (shownChar c) ≤ Text.byteWidth c := by
  unfold shownChar breakChar
  split
  · have hone : Text.byteWidth (sourceChar blockBreak) = 1 := by decide
    rw [hone]
    exact Text.byteWidth_pos c
  · exact byteWidth_sourceChar_le c

/-- The text given back never takes more bytes than the text put in. -/
theorem byteLength_source_le (t : Text) :
    Text.byteLength ((ofText t).sourceText) ≤ Text.byteLength t := by
  change Text.byteLength ((broken t).map sourceChar) ≤ _
  fun_induction broken t with
  | case1 => exact Nat.le_refl _
  | case2 rest ih =>
      have hbreak : Text.byteWidth (sourceChar blockBreak) = Text.byteWidth '\n' := by decide
      refine Nat.le_trans ?_ (Nat.le_add_left _ (Text.byteWidth '\r'))
      exact Nat.add_le_add (Nat.le_of_eq hbreak) ih
  | case3 c rest hpair ih => exact Nat.add_le_add (byteWidth_shownChar_le c) ih

theorem unitWidth_sourceChar (c : Char) : Text.unitWidth (sourceChar c) = Text.unitWidth c := by
  unfold sourceChar
  split
  · next h =>
      rw [h]
      decide
  · rfl

theorem unitLength_take_sourceText (buffer : Buffer) (k : Nat) :
    Text.unitLength (buffer.sourceText.take k) = Text.unitLength (buffer.content.take k) := by
  rw [sourceText, ← List.map_take]
  exact Text.measure_map Text.unitWidth sourceChar _ unitWidth_sourceChar

theorem length_sourceText (buffer : Buffer) :
    buffer.sourceText.length = buffer.content.length :=
  List.length_map _

end Buffer

end QueryDesk
