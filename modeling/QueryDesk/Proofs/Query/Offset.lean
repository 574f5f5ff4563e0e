import Mathlib.Order.Bounds.Basic
import QueryDesk.Proofs.Query.Position

/-!
# Offsets and positions lead back to each other

The offset of a position is what the characters before it take, and the position of an
offset is the first one whose offset is enough. The first of these goes from characters
to bytes and never leaves the boundaries between characters. The second one takes any
offset, also one inside a character, below zero or past the text, and so it is a way back
in two senses: from the offset of a position it leads to that position, and from any
offset it leads to the next boundary.

Both directions come from one equivalence, `Text.reach_le_iff`, which says where the way
back ends in terms of prefixes.

## Main definitions

* `Position.Boundary`: An offset between two characters.
* `Position.Within`: A position in a text.

## Theorems

* `ofOffset_byteOffset`: From a position to its offset and back.
* `isLeast_byteOffset_ofOffset`: From an offset to its position and back.
* `byteOffset_mono`, `ofOffset_mono`: Neither direction turns back.
* `selectionOf_byteOffset`: The ends of a selection are found again.
* `offsets_invert`: All of it together.
-/

namespace QueryDesk

namespace Position

/-- An offset between two characters of a text, or at one of its ends: the bytes of some
    first characters. -/
def Boundary (text : Text) (offset : Int) : Prop :=
  ∃ k ≤ text.length, ((Utf8.encode (text.take k)).length : Int) = offset

/-- A position before a character of a text, or after the last one. -/
def Within (text : Text) (position : Int) : Prop :=
  1 ≤ position ∧ position ≤ text.length + 1

theorem index_le (count : Nat) (position : Int) : index count position ≤ count :=
  Nat.min_le_right _ _

-- A position out of range counts as the nearest one in range.
theorem index_add_one (count : Nat) (position : Int) :
    (index count position : Int) + 1 = min (max 1 position) (count + 1) := by
  unfold index
  omega

theorem index_mono (count : Nat) (a b : Int) (h : a ≤ b) : index count a ≤ index count b := by
  unfold index
  omega

/-- From a position to its offset and back: a position out of range comes back as the
    nearest one in range. -/
theorem ofOffset_byteOffset (text : Text) (position : Int) :
    (ofOffset text (byteOffset text position) : Int)
      = min (max 1 position) (text.length + 1) := by
  have hback := Text.reach_measure_take Text.byteWidth Text.byteWidth_pos text
    (index text.length position)
  rw [Nat.min_eq_left (index_le text.length position)] at hback
  rw [← index_add_one, ofOffset, Int.toNat_natCast, byteOffset, Text.byteLength, hback]
  exact Int.natCast_succ _

theorem byteOffset_ofOffset (text : Text) (offset : Int) :
    byteOffset text (ofOffset text offset)
      = Text.byteLength (text.take (Text.reach Text.byteWidth offset.toNat text)) := by
  have hindex := index_succ text.length _
    (Text.reach_le_length Text.byteWidth text offset.toNat)
  rw [byteOffset, ofOffset, Int.natCast_succ, hindex]

/-- From an offset to its position and back: the least boundary that is not before the
    offset. -/
theorem isLeast_byteOffset_ofOffset (text : Text) (offset : Int)
    (h : offset ≤ (Utf8.encode text).length) :
    IsLeast {b | Boundary text b ∧ offset ≤ b} (byteOffset text (ofOffset text offset)) := by
  rw [Utf8.length_encode] at h
  rw [byteOffset_ofOffset]
  constructor
  · refine ⟨⟨_, Text.reach_le_length Text.byteWidth text offset.toNat, ?_⟩, ?_⟩
    · rw [Utf8.length_encode]
    · have hreached := Text.le_measure_reach Text.byteWidth text offset.toNat (by
        change offset.toNat ≤ Text.byteLength text
        omega)
      change offset.toNat ≤ Text.byteLength _ at hreached
      omega
  · rintro b ⟨⟨k, -, rfl⟩, hle⟩
    rw [Utf8.length_encode] at hle ⊢
    -- The prefix of that boundary is long enough, so the way back ends no later.
    have hreach : Text.reach Text.byteWidth offset.toNat text ≤ k :=
      (Text.reach_le_iff Text.byteWidth text offset.toNat k).mpr (Or.inl (by
        change offset.toNat ≤ Text.byteLength (text.take k)
        omega))
    exact Int.ofNat_le.mpr (Text.measure_take_mono Text.byteWidth text _ k hreach)

theorem byteOffset_ofOffset_of_neg (text : Text) (offset : Int) (h : offset < 0) :
    byteOffset text (ofOffset text offset) = 0 := by
  have hzero : offset.toNat = 0 := by omega
  rw [byteOffset_ofOffset, hzero, Text.reach]
  rfl

/-- An offset past the text leads to its end. -/
theorem byteOffset_ofOffset_of_lt (text : Text) (offset : Int)
    (h : (Utf8.encode text).length < offset) :
    byteOffset text (ofOffset text offset) = (Utf8.encode text).length := by
  rw [Utf8.length_encode] at h ⊢
  have hpast : Text.measure Text.byteWidth text < offset.toNat := by
    change Text.byteLength text < offset.toNat
    omega
  rw [byteOffset_ofOffset, Text.reach_of_measure_lt Text.byteWidth text _ hpast,
    List.take_length]

theorem byteOffset_mono (text : Text) (position later : Int) (h : position ≤ later) :
    byteOffset text position ≤ byteOffset text later :=
  Text.measure_take_mono Text.byteWidth text _ _ (index_mono text.length position later h)

theorem ofOffset_mono (text : Text) (offset later : Int) (h : offset ≤ later) :
    ofOffset text offset ≤ ofOffset text later :=
  Nat.succ_le_succ (Text.reach_mono Text.byteWidth text _ _ (Int.toNat_le_toNat h))

theorem ofOffset_byteOffset_of_within (text : Text) (position : Int) (h : Within text position) :
    (ofOffset text (byteOffset text position) : Int) = position := by
  rw [ofOffset_byteOffset, Int.max_eq_right h.1, Int.min_eq_left h.2]

/-- The ends of a selection are found again from their offsets, each where it was. -/
theorem selectionOf_byteOffset (path text : Text) (selection : Selection)
    (hstart : Within text selection.start) (hstop : ∀ stop ∈ selection.stop, Within text stop) :
    selectionOf text ⟨path, byteOffset text selection.start,
      selection.stop.map fun stop => (byteOffset text stop : Int)⟩ = selection := by
  rcases selection with ⟨start, stop⟩
  rw [selectionOf, ofOffset_byteOffset_of_within text start hstart, Option.map_map]
  cases stop with
  | none => rfl
  | some stop =>
      have hback := ofOffset_byteOffset_of_within text stop (hstop stop rfl)
      rw [Option.map_some, Function.comp_apply, hback]

/-- The offsets of a selection with its ends in order are in order. -/
theorem descriptor_byteOffset (path text : Text) (selection : Selection)
    (h : ∀ stop ∈ selection.stop, selection.start ≤ stop) :
    descriptor path (byteOffset text) selection = ⟨path, byteOffset text selection.start,
      selection.stop.map fun stop => (byteOffset text stop : Int)⟩ := by
  rcases selection with ⟨start, stop⟩
  cases stop with
  | none => rfl
  | some stop =>
      have hle := byteOffset_mono text start stop (h stop rfl)
      simp only [descriptor, Nat.min_eq_left hle, Nat.max_eq_right hle, Option.map_some]

/-- Offsets and positions of a text lead back to each other. A position comes back as
    itself, or as the nearest one in range; an offset comes back as the least boundary that
    is not before it, or as the end of the text. Neither direction turns back, and a
    selection is found again from the offsets of its ends, told in its own order or with the
    lesser one first. -/
theorem offsets_invert (text : Text) :
    (∀ position : Int, (ofOffset text (byteOffset text position) : Int)
        = min (max 1 position) (text.length + 1))
      ∧ (∀ offset : Int,
        (offset < 0 → byteOffset text (ofOffset text offset) = 0)
          ∧ (0 ≤ offset → offset ≤ (Utf8.encode text).length →
            IsLeast {b | Boundary text b ∧ offset ≤ b} (byteOffset text (ofOffset text offset)))
          ∧ ((Utf8.encode text).length < offset →
            byteOffset text (ofOffset text offset) = (Utf8.encode text).length))
      ∧ (∀ position later : Int, position ≤ later →
        byteOffset text position ≤ byteOffset text later)
      ∧ (∀ offset later : Int, offset ≤ later → ofOffset text offset ≤ ofOffset text later)
      ∧ ∀ (path : Text) (selection : Selection), Within text selection.start →
        (∀ stop ∈ selection.stop, Within text stop) →
        selectionOf text ⟨path, byteOffset text selection.start,
            selection.stop.map fun stop => (byteOffset text stop : Int)⟩ = selection
          ∧ ((∀ stop ∈ selection.stop, selection.start ≤ stop) →
            selectionOf text (descriptor path (byteOffset text) selection) = selection) := by
  refine ⟨ofOffset_byteOffset text, fun offset => ⟨?_, ?_, ?_⟩, byteOffset_mono text,
    ofOffset_mono text, fun path selection hstart hstop => ?_⟩
  · exact byteOffset_ofOffset_of_neg text offset
  · exact fun _ => isLeast_byteOffset_ofOffset text offset
  · exact byteOffset_ofOffset_of_lt text offset
  · have hself := selectionOf_byteOffset path text selection hstart hstop
    refine ⟨hself, fun horder => ?_⟩
    rw [descriptor_byteOffset path text selection horder]
    exact hself

/-- In a text with characters of every width: an offset inside a character, offsets out of
    range, and a range from the first character to the end. -/
theorem offsets_invert_mixed :
    let text : Text := "aé€😀"
    (0 ≤ (7 : Int) ∧ (7 : Int) ≤ (Utf8.encode text).length
        ∧ IsLeast {b | Boundary text b ∧ 7 ≤ b} (byteOffset text (ofOffset text 7)))
      ∧ ((-3 : Int) < 0 ∧ byteOffset text (ofOffset text (-3)) = 0)
      ∧ ((Utf8.encode text).length < (11 : Int) ∧ byteOffset text (ofOffset text 11) = 10)
      ∧ ((-3 : Int) ≤ 7 ∧ byteOffset text (-3) ≤ byteOffset text 7
        ∧ ofOffset text (-3) ≤ ofOffset text 7)
      ∧ Within text 2 ∧ Within text 5
      ∧ selectionOf text (descriptor "/a.go" (byteOffset text) ⟨2, some 5⟩) = ⟨2, some 5⟩ := by
  intro text
  rcases offsets_invert text with ⟨-, hoffsets, hbytes, hpositions, hselections⟩
  have hinside : 0 ≤ (7 : Int) ∧ (7 : Int) ≤ (Utf8.encode text).length := by decide
  have hbefore : (-3 : Int) < 0 := by decide
  have hpast : ((Utf8.encode text).length : Int) < 11 := by decide
  have hlater : (-3 : Int) ≤ 7 := by decide
  have hfirst : Within text 2 := ⟨by decide, by decide⟩
  have hlast : Within text 5 := ⟨by decide, by decide⟩
  refine ⟨⟨hinside.1, hinside.2, (hoffsets 7).2.1 hinside.1 hinside.2⟩,
    ⟨hbefore, (hoffsets (-3)).1 hbefore⟩, ⟨hpast, (hoffsets 11).2.2 hpast⟩,
    ⟨hlater, hbytes (-3) 7 hlater, hpositions (-3) 7 hlater⟩, hfirst, hlast, ?_⟩
  exact (hselections "/a.go" ⟨2, some 5⟩ hfirst (by rintro stop ⟨⟩; exact hlast)).2
    (by rintro stop ⟨⟩; decide)

end Position

end QueryDesk
