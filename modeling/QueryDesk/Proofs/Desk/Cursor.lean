import QueryDesk.Desk.Editor
import QueryDesk.Proofs.Desk.Buffer

/-!
# Cursors on characters

A cursor is kept in sixteen-bit units and told in characters. Its ends are on
character boundaries when each is what some first characters of the text take,
so such a cursor is given by two character counts, in either order. Telling it
in characters finds the two counts again, the lesser one first.

## Main definitions

* `Editor.selectCharacters`: The cursor put between two characters.

## Theorems

* `ofBounds_min_max`: A selection does not depend on the order of its bounds.
* `selectCharacters_sourceText`: A cursor leaves the text as it is.
* `selectCharacters_selection`: A cursor between characters is told by their
  numbers.
-/

namespace QueryDesk

namespace Selection

/-- A selection does not depend on the order of its bounds. -/
theorem ofBounds_min_max (a b : Nat) :
    ofBounds (((min a b : Nat) : Int) + 1) (((max a b : Nat) : Int) + 1)
      = ofBounds ((a : Int) + 1) ((b : Int) + 1) := by
  rcases Nat.le_total a b with h | h
  · rw [Nat.min_eq_left h, Nat.max_eq_right h]
  · rw [Nat.min_eq_right h, Nat.max_eq_left h, ofBounds, ofBounds, Int.min_comm, Int.max_comm]
    by_cases hab : a = b
    · rw [hab]
    · rw [if_neg (by omega), if_neg (by omega)]

end Selection

namespace Editor

/-- The editor with its cursor between two characters, each given by the number
    of characters before it. The second one is where the moving end is. -/
def selectCharacters (editor : Editor) (a b : Nat) : Editor :=
  editor.select (Text.unitLength (editor.sourceText.take a))
    (some (Text.unitLength (editor.sourceText.take b)))

theorem select_sourceText (editor : Editor) (start : Int) (stop : Option Int) :
    (editor.select start stop).sourceText = editor.sourceText :=
  congrArg (List.map Buffer.sourceChar) (Buffer.select_content editor.buffer start stop)

theorem selectCharacters_sourceText (editor : Editor) (a b : Nat) :
    (editor.selectCharacters a b).sourceText = editor.sourceText :=
  select_sourceText editor _ _

-- What some first characters of the text take is a position of the buffer.
theorem admits_unitLength_take (editor : Editor) (buffer : Buffer)
    (h : buffer.content = editor.buffer.content) (k : Nat) :
    buffer.admits (Text.unitLength (editor.sourceText.take k)) = true := by
  have hle : Text.unitLength (editor.sourceText.take k) ≤ buffer.length := by
    rw [sourceText, Buffer.unitLength_take_sourceText, Buffer.length, h]
    exact Text.measure_take_le Text.unitWidth editor.buffer.content k
  rw [Buffer.admits, Bool.and_eq_true, decide_eq_true_iff, decide_eq_true_iff]
  exact ⟨Int.natCast_nonneg _, Int.ofNat_le.mpr hle⟩

theorem selectCharacters_buffer (editor : Editor) (a b : Nat) :
    (editor.selectCharacters a b).buffer
      = { editor.buffer with
          anchor := Text.unitLength (editor.sourceText.take a)
          position := Text.unitLength (editor.sourceText.take b) } := by
  have hplace := admits_unitLength_take editor editor.buffer rfl a
  have hextend := admits_unitLength_take editor
    (editor.buffer.place (Text.unitLength (editor.sourceText.take a)))
    (Buffer.place_content _ _) b
  simp only [selectCharacters, select, Buffer.select, Buffer.extend, hextend, if_true]
  simp only [Buffer.place, hplace, if_true, Int.toNat_natCast]

/-- The cursor put to where a character begins is the cursor before that character. -/
theorem place_unitLength_take (editor : Editor) (k : Nat) :
    editor.buffer.place (Text.unitLength (editor.sourceText.take k))
      = (editor.selectCharacters k k).buffer := by
  rw [Buffer.place, if_pos (admits_unitLength_take editor editor.buffer rfl k),
    selectCharacters_buffer]
  rfl

theorem characterAt_unitLength_take (editor : Editor) (k : Nat)
    (h : k ≤ editor.sourceText.length) :
    editor.characterAt (Text.unitLength (editor.sourceText.take k)) = (k : Int) + 1 := by
  rw [characterAt, Text.unitIndex_unitLength_take, Nat.min_eq_left h]

/-- A cursor between characters is told by their numbers, counted from one. -/
theorem selectCharacters_selection (editor : Editor) (a b : Nat)
    (ha : a ≤ editor.sourceText.length) (hb : b ≤ editor.sourceText.length) :
    (editor.selectCharacters a b).selection = .ofBounds ((a : Int) + 1) ((b : Int) + 1) := by
  have hcharacter : ∀ position, (editor.selectCharacters a b).characterAt position
      = editor.characterAt position := by
    intro position
    rw [characterAt, selectCharacters_sourceText, characterAt]
  have hmin : min (Text.unitLength (editor.sourceText.take a))
      (Text.unitLength (editor.sourceText.take b))
      = Text.unitLength (editor.sourceText.take (min a b)) :=
    Text.measure_take_min Text.unitWidth editor.sourceText a b
  have hmax : max (Text.unitLength (editor.sourceText.take a))
      (Text.unitLength (editor.sourceText.take b))
      = Text.unitLength (editor.sourceText.take (max a b)) :=
    Text.measure_take_max Text.unitWidth editor.sourceText a b
  -- The two ends are apart in units just when they are apart in characters.
  have hapart : Text.unitLength (editor.sourceText.take a)
      = Text.unitLength (editor.sourceText.take b) → a = b := by
    intro h
    have hback := characterAt_unitLength_take editor a ha
    rw [h, characterAt_unitLength_take editor b hb] at hback
    omega
  rw [selection, Buffer.hasSelection, Buffer.selectionStart, Buffer.selectionStop,
    selectCharacters_buffer]
  simp only [hcharacter, hmin, hmax]
  rw [characterAt_unitLength_take editor (min a b) (by omega),
    characterAt_unitLength_take editor (max a b) (by omega)]
  by_cases hab : a = b
  · rw [hab, bne_self_eq_false, if_neg Bool.false_ne_true, Nat.min_self, Selection.ofBounds,
      if_pos rfl]
  · rw [if_pos (bne_iff_ne.mpr fun h => hab (hapart h)), Selection.ofBounds_min_max]

end Editor

end QueryDesk
