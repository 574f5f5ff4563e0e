import QueryDesk.Text.Measure

/-!
# Measures and the way back

A position in other units than characters is what the characters before it
take. Going back from such a position finds the character index again, because
every character takes something: the prefixes of a text grow with each
character, and the first one that takes at least as much is the one that was
measured.

## Theorems

* `total_append`, `measure_append`: A whole takes what its parts take.
* `total_eq_total_iff`: Widths that take the same in all are the same one by one.
* `measure_map`: Replaced characters of the same width take the same.
* `measure_take_mono`: A longer prefix takes no less.
* `reach_le_iff`: The way back ends at the first prefix that takes enough.
* `le_measure_reach`, `reach_of_measure_lt`: What is taken there, within the text and past it.
* `reach_measure_take`: The way back from the measure of a prefix.
* `byteWidth_pos`, `unitWidth_pos`: Every character takes something.
* `unitIndex_unitLength_take`: The index of a position on a character boundary.
-/

namespace QueryDesk

namespace Text

theorem total_append (xs ys : List Nat) : total (xs ++ ys) = total xs + total ys := by
  induction xs with
  | nil => exact (Nat.zero_add _).symm
  | cons x xs ih =>
      have hcons : total (x :: (xs ++ ys)) = x + total (xs ++ ys) := rfl
      rw [List.cons_append, hcons, ih, ← Nat.add_assoc]
      rfl

theorem total_le_total {α : Type} (xs : List α) (f g : α → Nat) (h : ∀ x ∈ xs, f x ≤ g x) :
    total (xs.map f) ≤ total (xs.map g) := by
  induction xs with
  | nil => exact Nat.le_refl 0
  | cons x xs ih =>
      exact Nat.add_le_add (h x List.mem_cons_self) (ih fun y hy => h y (List.mem_cons_of_mem x hy))

/-- When no width is more than another, both take the same in all only if they take the
    same one by one. -/
theorem total_eq_total_iff {α : Type} (xs : List α) (f g : α → Nat) (h : ∀ x ∈ xs, f x ≤ g x) :
    total (xs.map f) = total (xs.map g) ↔ ∀ x ∈ xs, f x = g x := by
  induction xs with
  | nil => exact iff_of_true rfl fun x hx => absurd hx List.not_mem_nil
  | cons x xs ih =>
      have hfirst := h x List.mem_cons_self
      have hlater : ∀ y ∈ xs, f y ≤ g y := fun y hy => h y (List.mem_cons_of_mem x hy)
      have hle := total_le_total xs f g hlater
      rw [List.forall_mem_cons, ← ih hlater]
      change f x + total (xs.map f) = g x + total (xs.map g) ↔ _
      omega

/-- The length of lists put together is what their lengths take. -/
theorem length_flatMap {α β : Type} (xs : List α) (f : α → List β) :
    (xs.flatMap f).length = total (xs.map fun x => (f x).length) :=
  List.length_flatMap

theorem measure_append (width : Char → Nat) (s t : Text) :
    measure width (s ++ t) = measure width s + measure width t := by
  rw [measure, List.map_append, total_append]
  rfl

theorem measure_cons (width : Char → Nat) (c : Char) (t : Text) :
    measure width (c :: t) = width c + measure width t := rfl

theorem measure_map (width : Char → Nat) (f : Char → Char) (t : Text)
    (h : ∀ c, width (f c) = width c) : measure width (t.map f) = measure width t := by
  rw [measure, List.map_map]
  exact congrArg total (List.map_congr_left fun c _ => h c)

/-- A longer prefix takes no less. -/
theorem measure_take_mono (width : Char → Nat) (t : Text) (a b : Nat) (h : a ≤ b) :
    measure width (t.take a) ≤ measure width (t.take b) := by
  have hsplit : t.take b = t.take a ++ (t.drop a).take (b - a) := by
    rw [← List.take_add, Nat.add_sub_cancel' h]
  rw [hsplit, measure_append]
  exact Nat.le_add_right _ _

theorem measure_take_le (width : Char → Nat) (t : Text) (k : Nat) :
    measure width (t.take k) ≤ measure width t := by
  rcases Nat.le_total k t.length with h | h
  · have hmono := measure_take_mono width t k t.length h
    rwa [List.take_length] at hmono
  · exact Nat.le_of_eq (congrArg (measure width) (List.take_of_length_le h))

theorem measure_take_min (width : Char → Nat) (t : Text) (a b : Nat) :
    min (measure width (t.take a)) (measure width (t.take b))
      = measure width (t.take (min a b)) := by
  rcases Nat.le_total a b with h | h
  · rw [Nat.min_eq_left h, Nat.min_eq_left (measure_take_mono width t a b h)]
  · rw [Nat.min_eq_right h, Nat.min_eq_right (measure_take_mono width t b a h)]

theorem measure_take_max (width : Char → Nat) (t : Text) (a b : Nat) :
    max (measure width (t.take a)) (measure width (t.take b))
      = measure width (t.take (max a b)) := by
  rcases Nat.le_total a b with h | h
  · rw [Nat.max_eq_right h, Nat.max_eq_right (measure_take_mono width t a b h)]
  · rw [Nat.max_eq_left h, Nat.max_eq_left (measure_take_mono width t b a h)]

/-! ## The way back -/

/-- The way back from a target ends no later than a prefix just when that prefix takes
    enough, or is the whole text. -/
theorem reach_le_iff (width : Char → Nat) (t : Text) (target k : Nat) :
    reach width target t ≤ k ↔ target ≤ measure width (t.take k) ∨ t.length ≤ k := by
  induction t generalizing target k with
  | nil =>
      have hreach : reach width target [] = 0 := by cases target <;> rfl
      rw [hreach]
      exact iff_of_true (Nat.zero_le k) (Or.inr (Nat.zero_le k))
  | cons c t ih =>
      cases target with
      | zero => exact iff_of_true (Nat.zero_le k) (Or.inl (Nat.zero_le _))
      | succ target =>
          rw [reach]
          cases k with
          | zero =>
              rw [List.take_zero]
              refine iff_of_false (Nat.not_succ_le_zero _) (not_or.mpr ⟨?_, ?_⟩)
              · exact Nat.not_succ_le_zero target
              · exact Nat.not_succ_le_zero t.length
          | succ k =>
              -- What the first character takes is no longer to be reached by the rest.
              rw [Nat.succ_le_succ_iff, ih, List.take_succ_cons, measure_cons, List.length_cons,
                Nat.succ_le_succ_iff, Nat.sub_le_iff_le_add']

theorem reach_le_length (width : Char → Nat) (t : Text) (target : Nat) :
    reach width target t ≤ t.length :=
  (reach_le_iff width t target t.length).mpr (Or.inr (Nat.le_refl _))

theorem reach_mono (width : Char → Nat) (t : Text) (a b : Nat) (h : a ≤ b) :
    reach width a t ≤ reach width b t := by
  rw [reach_le_iff]
  exact ((reach_le_iff width t b _).mp (Nat.le_refl _)).imp_left (Nat.le_trans h)

/-- A target that the text reaches is reached by the prefix that the way back ends at. -/
theorem le_measure_reach (width : Char → Nat) (t : Text) (target : Nat)
    (h : target ≤ measure width t) : target ≤ measure width (t.take (reach width target t)) := by
  rcases (reach_le_iff width t target _).mp (Nat.le_refl _) with hle | hle
  · exact hle
  · rwa [List.take_of_length_le hle]

/-- A target past the text leads to its end. -/
theorem reach_of_measure_lt (width : Char → Nat) (t : Text) (target : Nat)
    (h : measure width t < target) : reach width target t = t.length := by
  refine Nat.le_antisymm (reach_le_length width t target) ?_
  rcases (reach_le_iff width t target _).mp (Nat.le_refl _) with hle | hle
  · exact absurd (Nat.le_trans hle (measure_take_le width t _)) (Nat.not_le_of_lt h)
  · exact hle

/-- The way back from the measure of a prefix is the length of the prefix. -/
theorem reach_measure_take (width : Char → Nat) (hpos : ∀ c, 0 < width c) (t : Text) (k : Nat) :
    reach width (measure width (t.take k)) t = min k t.length := by
  induction t generalizing k with
  | nil =>
      rw [List.take_nil, List.length_nil, Nat.min_zero]
      rfl
  | cons c t ih =>
      cases k with
      | zero => exact (Nat.zero_min _).symm
      | succ k =>
          rw [List.take_succ_cons, measure_cons, List.length_cons, Nat.succ_min_succ, ← ih k]
          -- The first character takes something, so the target is a successor.
          have hsucc : width c + measure width (t.take k)
              = width c - 1 + measure width (t.take k) + 1 := by
            have := hpos c
            omega
          have hrest : width c - 1 + measure width (t.take k) + 1 - width c
              = measure width (t.take k) := by
            have := hpos c
            omega
          rw [hsucc, reach, hrest]

theorem byteWidth_pos (c : Char) : 0 < byteWidth c := by
  rw [byteWidth, String.length_utf8EncodeChar]
  exact Char.utf8Size_pos c

theorem unitWidth_pos (c : Char) : 0 < unitWidth c := by
  rw [unitWidth]
  split <;> decide

/-- The index of a position on a character boundary is the number of characters
    before it. -/
theorem unitIndex_unitLength_take (t : Text) (k : Nat) :
    unitIndex t (unitLength (t.take k)) = min k t.length :=
  reach_measure_take unitWidth unitWidth_pos t k

end Text

end QueryDesk
