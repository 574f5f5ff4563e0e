import Mathlib.Order.Bounds.Basic
import QueryDesk.Proofs.Desk.Place

/-!
# Where going to a line and a column ends

A line and a column can be any integers, also ones that the text does not have. Going
there ends in a block of the text in any case: a line before the first one leads to the
first block, a line past the last one to the last block, and a column past the end of its
block to that end. And it ends between two characters: a column inside a character leads
behind it, so that the cursor is never put between the two units of one.

The column is counted in bytes and the cursor in sixteen-bit units, each by a walk of its
own along the block. What the two have in common is the prefix that the first walk ends
at and the second one measures.

## Main definitions

* `Buffer.Addresses`: The block that a line leads to.
* `Buffer.Spans`: The prefix of a block that a column leads past.

## Theorems

* `content_of_block`: A buffer's text around one of its blocks.
* `locateIn_blockStart`: The block and the column of a position are found again.
* `spans_ofOffset`: Positions of offsets span what their column says.
* `goTo_arrives`: Going to any line and any column ends in a block, between characters.
* `units_lead_back`: Units and characters lead back to each other, also along a line.
-/

namespace QueryDesk

namespace Text

/-- The index of a position in units is the least one that has so many units before
    it. -/
theorem isLeast_unitIndex (t : Text) (units : Int)
    (h : ∃ j ≤ t.length, units ≤ unitLength (t.take j)) :
    IsLeast {j | j ≤ t.length ∧ units ≤ unitLength (t.take j)} (unitIndex t units) := by
  have hwhole : units.toNat ≤ measure unitWidth t := by
    rcases h with ⟨j, -, hj⟩
    have hle : unitLength (t.take j) ≤ measure unitWidth t := measure_take_le unitWidth t j
    omega
  constructor
  · have hreached := le_measure_reach unitWidth t units.toNat hwhole
    refine ⟨reach_le_length unitWidth t units.toNat, ?_⟩
    exact Int.le_trans (Int.self_le_toNat units) (Int.ofNat_le.mpr hreached)
  · rintro j ⟨-, hj⟩
    exact (reach_le_iff unitWidth t units.toNat j).mpr (Or.inl (Int.toNat_le.mpr hj))

/-- A position past all units is the end. -/
theorem unitIndex_of_lt (t : Text) (units : Int)
    (h : ¬ ∃ j ≤ t.length, units ≤ unitLength (t.take j)) : unitIndex t units = t.length := by
  refine reach_of_measure_lt unitWidth t units.toNat (Nat.lt_of_not_le fun hle => h ?_)
  refine ⟨t.length, Nat.le_refl _, ?_⟩
  rw [List.take_length]
  exact Int.toNat_le.mp hle

end Text

namespace Buffer

/-- The block that a line counted from one leads to: its own, or the first or the last
    one when there is no such line. -/
def Addresses (buffer : Buffer) (line : Int) (number : Nat) : Prop :=
  if line ≤ 1 then number = 0
  else if line ≤ buffer.blocks.length then (number : Int) = line - 1
  else number + 1 = buffer.blocks.length

/-- The characters of a block that a column counted in bytes from one leads past: as few
    as have the bytes before it, or all of them when there are not so many. -/
def Spans (block : Text) (column : Int) (k : Nat) : Prop :=
  k ≤ block.length
    ∧ (column - 1 ≤ (Utf8.encode (block.take k)).length ∨ k = block.length)
    ∧ ∀ i < k, ((Utf8.encode (block.take i)).length : Int) < column - 1

theorem blocks_ne_nil (buffer : Buffer) : buffer.blocks ≠ [] := by
  rw [blocks, Text.splitOn_eq]
  exact List.splitOn_ne_nil _ _

theorem addresses_min (buffer : Buffer) (line : Int) :
    buffer.Addresses line (min (line - 1).toNat (buffer.blocks.length - 1)) := by
  have hpos := List.length_pos_iff.mpr buffer.blocks_ne_nil
  unfold Addresses
  split
  · omega
  · split
    · omega
    · omega

/-- A buffer's text around one of its blocks. -/
theorem content_of_block (buffer : Buffer) (number : Nat) (block : Text)
    (h : buffer.blocks[number]? = some block) :
    ∃ rest, buffer.content
      = (buffer.blocks.take number).flatMap (· ++ [blockBreak]) ++ (block ++ rest) := by
  rcases List.getElem?_eq_some_iff.mp h with ⟨hlt, hblock⟩
  have hparts : buffer.blocks
      = buffer.blocks.take number ++ block :: buffer.blocks.drop (number + 1) := by
    rw [← hblock, List.getElem_cons_drop, List.take_append_drop]
  have hjoin := Text.join_splitOn blockBreak buffer.content
  change Text.join [blockBreak] buffer.blocks = buffer.content at hjoin
  rw [hparts, Text.join_append] at hjoin
  cases hback : buffer.blocks.drop (number + 1) with
  | nil =>
      rw [hback, Text.join, List.intercalate_singleton] at hjoin
      exact ⟨[], by rw [List.append_nil, hjoin]⟩
  | cons next more =>
      rw [hback, Text.join, List.intercalate_cons_cons, List.append_assoc] at hjoin
      exact ⟨_, hjoin.symm⟩

-- Where another block follows, a position past the break is looked for from there.
theorem locateIn_cons_cons (first second : Text) (more : List Text) (position : Nat) :
    locateIn (first :: second :: more) position
      = if position ≤ Text.unitLength first then (0, position)
        else
          ((locateIn (second :: more) (position - (Text.unitLength first + 1))).1 + 1,
            (locateIn (second :: more) (position - (Text.unitLength first + 1))).2) := by
  rw [locateIn]
  exact List.cons_ne_nil second more

/-- The block and the column of a position in a block are found again. -/
theorem locateIn_blockStart (blocks : List Text) (number : Nat) (block : Text) (column : Nat)
    (h : blocks[number]? = some block) (hcolumn : column ≤ Text.unitLength block) :
    locateIn blocks (blockStart blocks number + column) = (number, column) := by
  induction blocks generalizing number with
  | nil => exact absurd h (by simp only [List.getElem?_nil, reduceCtorEq, not_false_eq_true])
  | cons first rest ih =>
      cases number with
      | zero =>
          rw [List.getElem?_cons_zero, Option.some.injEq] at h
          have hstart : blockStart (first :: rest) 0 = 0 := rfl
          rw [hstart, Nat.zero_add]
          cases rest with
          | nil => rfl
          | cons second more => rw [locateIn_cons_cons, if_pos (h ▸ hcolumn)]
      | succ number =>
          rw [List.getElem?_cons_succ] at h
          have hstart : blockStart (first :: rest) (number + 1)
              = Text.unitLength first + 1 + blockStart rest number := rfl
          cases rest with
          | nil => exact absurd h (by simp only [List.getElem?_nil, reduceCtorEq,
              not_false_eq_true])
          | cons second more =>
              -- The position is past the first block and the break after it.
              have hpast : ¬ Text.unitLength first + 1 + blockStart (second :: more) number + column
                  ≤ Text.unitLength first := by omega
              have hless : Text.unitLength first + 1 + blockStart (second :: more) number + column
                  - (Text.unitLength first + 1) = blockStart (second :: more) number + column := by
                omega
              rw [hstart, locateIn_cons_cons, if_neg hpast, hless, ih number h]

/-- The character at the position of an offset is the one that the column says. -/
theorem spans_ofOffset (block : Text) (column : Int) :
    Spans block column (Position.ofOffset block (max 0 (column - 1)) - 1) := by
  have hself : Position.ofOffset block (max 0 (column - 1)) - 1
      = Text.reach Text.byteWidth (column - 1).toNat block := by
    have hmax : (max 0 (column - 1)).toNat = (column - 1).toNat := by omega
    rw [Position.ofOffset, hmax, Nat.add_sub_cancel]
  have hiff := Text.reach_le_iff Text.byteWidth block (column - 1).toNat
  rw [hself]
  generalize Text.reach Text.byteWidth (column - 1).toNat block = k at *
  refine ⟨(hiff _).mpr (Or.inr (Nat.le_refl _)), ?_, fun i hi => ?_⟩
  · rw [Utf8.length_encode]
    rcases (hiff k).mp (Nat.le_refl k) with hle | hle
    · exact Or.inl (Int.toNat_le.mp hle)
    · exact Or.inr (Nat.le_antisymm ((hiff _).mpr (Or.inr (Nat.le_refl _))) hle)
  · rw [Utf8.length_encode]
    have hfew := (not_or.mp ((hiff i).not.mp (Nat.not_le_of_lt hi))).1
    exact Int.not_le.mp fun hle => hfew (Int.toNat_le.mpr hle)

end Buffer

namespace Editor

/-- Going to any line and any column puts the cursor into the block that the line
    addresses, behind the characters that the column spans and so between two characters of
    the text. Nothing else of the editor changes. -/
theorem goTo_arrives (editor : Editor) (line column : Int) :
    ∃ number block k j, editor.buffer.blocks[number]? = some block
      ∧ editor.buffer.Addresses line number ∧ Buffer.Spans block column k
      ∧ j ≤ editor.sourceText.length
      ∧ editor.goTo line column = editor.selectCharacters j j
      ∧ editor.buffer.locate (Text.unitLength (editor.sourceText.take j))
        = (number, Text.unitLength (block.take k)) := by
  have hpos := List.length_pos_iff.mpr editor.buffer.blocks_ne_nil
  generalize hnumber : min (line - 1).toNat (editor.buffer.blocks.length - 1) = number
  have haddress := editor.buffer.addresses_min line
  rw [hnumber] at haddress
  have hlt : number < editor.buffer.blocks.length := by omega
  have hblock := List.getElem?_eq_getElem hlt
  generalize editor.buffer.blocks[number] = block at hblock
  generalize hk : Position.ofOffset block (max 0 (column - 1)) - 1 = k
  have hspans := Buffer.spans_ofOffset block column
  rw [hk] at hspans
  rcases editor.buffer.content_of_block number block hblock with ⟨rest, hcontent⟩
  generalize hfront : (editor.buffer.blocks.take number).flatMap (· ++ [Buffer.blockBreak])
    = front at hcontent
  -- The characters before the cursor are the blocks before its own and what is spanned of it.
  have htake : editor.buffer.content.take (front.length + k) = front ++ block.take k := by
    rw [hcontent, List.take_length_add_append, List.take_append_of_le_length hspans.1]
  have hposition : Text.unitLength (editor.sourceText.take (front.length + k))
      = Buffer.blockStart editor.buffer.blocks number + Text.unitLength (block.take k) := by
    rw [sourceText, Buffer.unitLength_take_sourceText, htake, Buffer.blockStart,
      unitLength_blocks, hfront]
    exact Text.measure_append Text.unitWidth front (block.take k)
  refine ⟨number, block, k, front.length + k, hblock, haddress, hspans, ?_, ?_, ?_⟩
  · rw [sourceText, Buffer.length_sourceText, hcontent, List.length_append, List.length_append]
    have := hspans.1
    omega
  · have hgoal : positionOf editor.buffer line column
        = Text.unitLength (editor.sourceText.take (front.length + k)) := by
      rw [hposition]
      unfold positionOf
      simp only [hnumber, hblock, Option.getD_some, hk]
    have hbuffer := place_unitLength_take editor (front.length + k)
    rw [← hgoal] at hbuffer
    rw [goTo, hbuffer]
    rfl
  · rw [hposition]
    exact Buffer.locateIn_blockStart _ number block _ hblock
      (Text.measure_take_le Text.unitWidth block k)

/-- Units and characters lead back to each other. The index of what some first characters
    take is their number, and the index of any position is the least one that has so many
    units before it, or the end. Going to any line and any column puts the cursor, both its
    ends, before a character of the text, and the widget tells it in the block that the line
    addresses, behind the characters that the column spans. -/
theorem units_lead_back :
    (∀ (t : Text) (i : Nat), i ≤ t.length → Text.unitIndex t (Text.unitLength (t.take i)) = i)
      ∧ (∀ (t : Text) (units : Int),
        ((∃ j ≤ t.length, units ≤ Text.unitLength (t.take j)) →
          IsLeast {j | j ≤ t.length ∧ units ≤ Text.unitLength (t.take j)}
            (Text.unitIndex t units))
        ∧ ((¬ ∃ j ≤ t.length, units ≤ Text.unitLength (t.take j)) →
          Text.unitIndex t units = t.length))
      ∧ ∀ (editor : Editor) (line column : Int), ∃ (number : Nat) (block : Text) (k j : Nat),
        editor.buffer.blocks[number]? = some block
          ∧ editor.buffer.Addresses line number ∧ Buffer.Spans block column k
          ∧ j ≤ editor.sourceText.length
          ∧ (editor.goTo line column).buffer = { editor.buffer with
              anchor := Text.unitLength (editor.sourceText.take j)
              position := Text.unitLength (editor.sourceText.take j) }
          ∧ (editor.goTo line column).selection = ⟨(j : Int) + 1, none⟩
          ∧ editor.buffer.locate (Text.unitLength (editor.sourceText.take j))
            = (number, Text.unitLength (block.take k)) := by
  refine ⟨fun t i hi => ?_, fun t units => ⟨?_, ?_⟩, fun editor line column => ?_⟩
  · rw [Text.unitIndex_unitLength_take, Nat.min_eq_left hi]
  · exact Text.isLeast_unitIndex t units
  · exact Text.unitIndex_of_lt t units
  · rcases editor.goTo_arrives line column with
      ⟨number, block, k, j, hblock, haddress, hspans, hj, hgoal, hlocate⟩
    refine ⟨number, block, k, j, hblock, haddress, hspans, hj, ?_, ?_, hlocate⟩
    · rw [hgoal, selectCharacters_buffer]
    · rw [hgoal, selectCharacters_selection editor j j hj hj, Selection.ofBounds, if_pos rfl]

/-- A position between the two units of a character leads behind it, and one past the end
    to the end. -/
theorem units_lead_back_pair :
    let t : Text := "a😀é"
    (2 ≤ t.length ∧ Text.unitIndex t (Text.unitLength (t.take 2)) = 2)
      ∧ ((∃ j ≤ t.length, (2 : Int) ≤ Text.unitLength (t.take j))
        ∧ IsLeast {j | j ≤ t.length ∧ (2 : Int) ≤ Text.unitLength (t.take j)}
          (Text.unitIndex t 2))
      ∧ ((¬ ∃ j ≤ t.length, (9 : Int) ≤ Text.unitLength (t.take j))
        ∧ Text.unitIndex t 9 = t.length) := by
  intro t
  have hshort : 2 ≤ t.length := by decide
  have hinside : ∃ j ≤ t.length, (2 : Int) ≤ Text.unitLength (t.take j) := by decide
  have hpast : ¬ ∃ j ≤ t.length, (9 : Int) ≤ Text.unitLength (t.take j) := by decide
  exact ⟨⟨hshort, units_lead_back.1 t 2 hshort⟩,
    ⟨hinside, (units_lead_back.2.1 t 2).1 hinside⟩, ⟨hpast, (units_lead_back.2.1 t 9).2 hpast⟩⟩

end Editor

end QueryDesk
