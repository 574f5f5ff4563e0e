import Mathlib.Algebra.Ring.Nat
import QueryDesk.Proofs.Json.Scalar
import QueryDesk.Proofs.Json.Sorted

/-!
# What a file can give

Whatever a file holds, a value that is read from it is regular: of two fields with
one key only one is left, and an integer with too many digits is refused.

## Main definitions

* `Json.Gives`: The reader gives regular values within a number of steps.

## Theorems

* `digitsValue_lt`: A number has no more digits than it is read from.
* `regular_of_readScalar`: Words and numbers are regular.
* `regular_of_read`: A value that was read is regular.
-/

namespace QueryDesk

namespace Json

/-! ## Words and numbers -/

theorem foldl_digits_lt (t : Text) (h : ∀ c ∈ t, isDigit c = true) (n : Nat) :
    t.foldl (fun n c => 10 * n + (c.toNat - '0'.toNat)) n < (n + 1) * 10 ^ t.length := by
  induction t generalizing n with
  | nil => rw [List.foldl_nil, List.length_nil, Nat.pow_zero, Nat.mul_one]; exact Nat.lt_succ_self n
  | cons c t ih =>
      rw [List.forall_mem_cons, isDigit, Bool.and_eq_true, decide_eq_true_eq,
        decide_eq_true_eq] at h
      have hc : c.toNat ≤ 57 := h.1.2
      refine Nat.lt_of_lt_of_le (ih h.2 _) ?_
      rw [List.length_cons, Nat.pow_succ', ← Nat.mul_assoc]
      refine Nat.mul_le_mul_right _ ?_
      change 10 * n + (c.toNat - 48) + 1 ≤ (n + 1) * 10
      omega

/-- A number is read from no fewer digits than it has. -/
theorem digitsValue_lt (t : Text) (h : ∀ c ∈ t, isDigit c = true) :
    digitsValue t < 10 ^ t.length := by
  have hbound := foldl_digits_lt t h 0
  rwa [Nat.zero_add, Nat.one_mul] at hbound

theorem isDigit_of_integerPart? {t whole after : Text} (h : integerPart? t = some (whole, after)) :
    whole ≠ [] ∧ ∀ c ∈ whole, isDigit c = true := by
  cases t with
  | nil => exact absurd h (Option.some_ne_none _).symm
  | cons c t =>
      rw [integerPart?] at h
      split at h
      · rw [← (Prod.mk.inj (Option.some.inj h)).1]
        exact ⟨List.cons_ne_nil _ _, List.forall_mem_singleton.mpr rfl⟩
      split at h
      · next hdigit =>
          rw [← (Prod.mk.inj (Option.some.inj h)).1]
          refine ⟨?_, fun d hd => List.mem_takeWhile_imp hd⟩
          rw [List.takeWhile_cons, if_pos hdigit]
          exact List.cons_ne_nil _ _
      · exact absurd h (Option.some_ne_none _).symm

theorem regular_of_readMagnitude {opened : Nat} {negative : Bool} {t after : Text} {value : Json}
    (h : readMagnitude opened negative t = .ok (value, after)) : value.Regular := by
  unfold readMagnitude at h
  split at h
  · exact absurd h (by simp only [reduceCtorEq, not_false_eq_true])
  next whole digits hwhole =>
  rcases isDigit_of_integerPart? hwhole with ⟨hne, hdigits⟩
  simp only at h
  split at h
  · split at h
    · next hshort =>
        rw [← (Prod.mk.inj (Except.ok.inj h)).1]
        have hlength := (Nat.length_toDigits_le_iff (by decide)
          (List.length_pos_of_ne_nil hne)).mpr (digitsValue_lt whole hdigits)
        have habs : ((if negative then -(digitsValue whole : Int) else digitsValue whole)).natAbs
            = digitsValue whole := by
          split
          · rw [Int.natAbs_neg, Int.natAbs_natCast]
          · exact Int.natAbs_natCast _
        refine .int _ ?_
        rw [habs]
        rw [Text.isShortNumeral, decide_eq_true_eq] at hshort ⊢
        exact Nat.le_trans hlength hshort
    · exact absurd h (by simp only [reduceCtorEq, not_false_eq_true])
  · rw [← (Prod.mk.inj (Except.ok.inj h)).1]
    exact .float _

/-- A word or a number that was read is regular. -/
theorem regular_of_readScalar {t after : Text} {value : Json}
    (h : readScalar t = .ok (value, after)) : value.Regular := by
  unfold readScalar at h
  split at h
  · next word found heq =>
      rw [← (Prod.mk.inj (Except.ok.inj h)).1]
      have hmem : found ∈ constants.map (·.2) :=
        List.mem_map_of_mem (List.mem_of_find?_eq_some heq)
      rw [constants] at hmem
      simp only [List.map_cons, List.map_nil, List.mem_cons, List.not_mem_nil, or_false] at hmem
      rcases hmem with rfl | rfl | rfl | rfl | rfl | rfl
      · exact .null
      · exact .bool true
      · exact .bool false
      all_goals exact .float _
  · unfold readNumber at h
    split at h
    · exact regular_of_readMagnitude h
    · exact regular_of_readMagnitude h

/-! ## Lists and objects -/

theorem regular_ofEntries {fields : List (Text × Json)} (h : ∀ field ∈ fields, field.2.Regular) :
    Regular (.obj (Table.ofEntries fields)) := by
  have hnil : (([] : Table Json).map (·.1)).Nodup := List.nodup_nil
  exact .obj _ (Table.nodup_update hnil fields) fun field hmem =>
    h field ((Table.mem_of_mem_update hmem).resolve_left List.not_mem_nil)

/-- Within a number of steps the reader gives regular values, items and fields
    only. -/
structure Gives (fuel : Nat) : Prop where
  value : ∀ room t value after, readValue fuel room t = .ok (value, after) → value.Regular
  items : ∀ room t items after, readItems fuel room t = .ok (items, after) →
    ∀ item ∈ items, item.Regular
  fields : ∀ room t fields after, readFields fuel room t = .ok (fields, after) →
    ∀ field ∈ fields, field.2.Regular

namespace Gives

variable {fuel room : Nat} {t after : Text}

theorem value_succ (h : Gives fuel) {value : Json}
    (hread : readValue (fuel + 1) room t = .ok (value, after)) : value.Regular := by
  unfold readValue at hread
  split at hread
  · split at hread
    · rw [← (Prod.mk.inj (Except.ok.inj hread)).1]
      exact .str _
    · exact absurd hread (by simp only [reduceCtorEq, not_false_eq_true])
  · split at hread
    · exact absurd hread (by simp only [reduceCtorEq, not_false_eq_true])
    · split at hread
      · rw [← (Prod.mk.inj (Except.ok.inj hread)).1]
        exact .arr _ fun _ hmem => absurd hmem List.not_mem_nil
      · split at hread
        · next hitems =>
            rw [← (Prod.mk.inj (Except.ok.inj hread)).1]
            exact .arr _ (h.items _ _ _ _ hitems)
        · exact absurd hread (by simp only [reduceCtorEq, not_false_eq_true])
  · split at hread
    · exact absurd hread (by simp only [reduceCtorEq, not_false_eq_true])
    · split at hread
      · rw [← (Prod.mk.inj (Except.ok.inj hread)).1]
        exact .obj _ List.nodup_nil fun _ hmem => absurd hmem List.not_mem_nil
      · split at hread
        · next hfields =>
            rw [← (Prod.mk.inj (Except.ok.inj hread)).1]
            exact regular_ofEntries (h.fields _ _ _ _ hfields)
        · exact absurd hread (by simp only [reduceCtorEq, not_false_eq_true])
  · exact regular_of_readScalar hread

theorem items_succ (h : Gives fuel) {items : List Json}
    (hread : readItems (fuel + 1) room t = .ok (items, after)) : ∀ item ∈ items, item.Regular := by
  unfold readItems at hread
  split at hread
  · exact absurd hread (by simp only [reduceCtorEq, not_false_eq_true])
  next item rest hvalue =>
  have hitem := h.value _ _ _ _ hvalue
  split at hread
  · rw [← (Prod.mk.inj (Except.ok.inj hread)).1]
    exact List.forall_mem_singleton.mpr hitem
  · split at hread
    · next hmore =>
        rw [← (Prod.mk.inj (Except.ok.inj hread)).1]
        exact List.forall_mem_cons.mpr ⟨hitem, h.items _ _ _ _ hmore⟩
    · exact absurd hread (by simp only [reduceCtorEq, not_false_eq_true])
  · exact absurd hread (by simp only [reduceCtorEq, not_false_eq_true])

theorem fields_succ (h : Gives fuel) {fields : List (Text × Json)}
    (hread : readFields (fuel + 1) room t = .ok (fields, after)) :
    ∀ field ∈ fields, field.2.Regular := by
  unfold readFields at hread
  split at hread
  · split at hread
    · exact absurd hread (by simp only [reduceCtorEq, not_false_eq_true])
    split at hread
    · split at hread
      · exact absurd hread (by simp only [reduceCtorEq, not_false_eq_true])
      next value rest hvalue =>
      have hfield := h.value _ _ _ _ hvalue
      split at hread
      · rw [← (Prod.mk.inj (Except.ok.inj hread)).1]
        exact List.forall_mem_singleton.mpr hfield
      · split at hread
        · next hmore =>
            rw [← (Prod.mk.inj (Except.ok.inj hread)).1]
            exact List.forall_mem_cons.mpr ⟨hfield, h.fields _ _ _ _ hmore⟩
        · exact absurd hread (by simp only [reduceCtorEq, not_false_eq_true])
      · exact absurd hread (by simp only [reduceCtorEq, not_false_eq_true])
    · exact absurd hread (by simp only [reduceCtorEq, not_false_eq_true])
  · exact absurd hread (by simp only [reduceCtorEq, not_false_eq_true])

end Gives

theorem gives (fuel : Nat) : Gives fuel := by
  induction fuel with
  | zero =>
      refine ⟨fun _ _ _ _ h => ?_, fun _ _ _ _ h => ?_, fun _ _ _ _ h => ?_⟩
      · exact absurd h (by simp only [readValue, reduceCtorEq, not_false_eq_true])
      · exact absurd h (by simp only [readItems, reduceCtorEq, not_false_eq_true])
      · exact absurd h (by simp only [readFields, reduceCtorEq, not_false_eq_true])
  | succ fuel ih =>
      exact ⟨fun _ _ _ _ => ih.value_succ, fun _ _ _ _ => ih.items_succ,
        fun _ _ _ _ => ih.fields_succ⟩

/-- A value that was read is regular. -/
theorem regular_of_read {t : Text} {value : Json} (h : read t = .ok value) : value.Regular := by
  unfold read readWithin at h
  split at h
  · exact absurd h (by simp only [reduceCtorEq, not_false_eq_true])
  split at h
  · exact absurd h (by simp only [reduceCtorEq, not_false_eq_true])
  next found rest hread =>
  simp only at h
  split at h
  · rw [← Except.ok.inj h]
    exact (gives _).value _ _ _ _ hread
  · exact absurd h (by simp only [reduceCtorEq, not_false_eq_true])

end Json

end QueryDesk
