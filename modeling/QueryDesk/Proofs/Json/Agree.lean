import Mathlib.Data.List.Perm.Subperm
import QueryDesk.Json.Basic
import QueryDesk.Proofs.Table

/-!
# Values that are equal as settings

Equality of settings goes through lists item by item and through objects field by
field. Inside of them the value that is not a number is equal to itself, which it
is not alone: `alike` is the equality as it is inside, and everything about lists
and objects is said with it.

## Main definitions

* `Json.alike`: Two values are equal as they are inside a list or an object.

## Theorems

* `induction`: What holds of a value when it holds of the values inside.
* `itemsAgree_iff`, `fieldsAgree_iff`: Lists and objects by what is inside.
* `agrees_obj_iff`: Equal objects have the same keys, and alike values under them.
* `agrees_str_iff`, `agrees_texts_iff`: Only a text is equal to a text.
-/

namespace QueryDesk

namespace Json

/-- What holds of a value when it holds of the values inside. -/
theorem induction {motive : Json → Prop} (null : motive .null) (bool : ∀ b, motive (.bool b))
    (int : ∀ n, motive (.int n)) (float : ∀ x, motive (.float x)) (str : ∀ t, motive (.str t))
    (arr : ∀ items, (∀ item ∈ items, motive item) → motive (.arr items))
    (obj : ∀ fields, (∀ field ∈ fields, motive field.2) → motive (.obj fields)) :
    ∀ value, motive value
  | .null => null
  | .bool b => bool b
  | .int n => int n
  | .float x => float x
  | .str t => str t
  | .arr items => arr items fun item _ =>
      induction null bool int float str arr obj item
  | .obj fields => obj fields fun field _ =>
      induction null bool int float str arr obj field.2
termination_by value => sizeOf value
decreasing_by
  · have := List.sizeOf_lt_of_mem ‹_›
    simp only [Json.arr.sizeOf_spec]
    omega
  · rcases field with ⟨key, value⟩
    have := List.sizeOf_lt_of_mem ‹(key, value) ∈ fields›
    simp only [Json.obj.sizeOf_spec, Prod.mk.sizeOf_spec] at this ⊢
    omega

/-- Two values are equal as they are inside a list or an object: the one that is not
    a number is equal to itself. -/
def alike (value other : Json) : Bool :=
  (value.isNan && other.isNan) || agrees value other

theorem alike_eq_agrees {other : Json} (h : other.isNan = false) (value : Json) :
    alike value other = agrees value other := by
  rw [alike, h, Bool.and_false, Bool.false_or]

theorem itemsAgree_iff (items others : List Json) :
    itemsAgree items others = true
      ↔ List.Forall₂ (fun item other => alike item other = true) items others := by
  induction items generalizing others with
  | nil =>
      rw [itemsAgree, List.isEmpty_iff, List.forall₂_nil_left_iff]
  | cons item items ih =>
      cases others with
      | nil =>
          exact iff_of_false Bool.false_ne_true fun h => nomatch h
      | cons other others =>
          rw [itemsAgree, Bool.and_eq_true, ih, List.forall₂_cons]
          rfl

/-- Each field has one under its key in the other object that is alike. -/
theorem fieldsAgree_iff (fields others : Table Json) :
    fieldsAgree fields others = true ↔ ∀ field ∈ fields,
      ∃ other, Table.get? field.1 others = some other ∧ alike field.2 other = true := by
  induction fields with
  | nil =>
      exact iff_of_true rfl fun _ h => absurd h List.not_mem_nil
  | cons field fields ih =>
      rcases field with ⟨key, value⟩
      rw [fieldsAgree, Bool.and_eq_true, ih, List.forall_mem_cons]
      refine and_congr_left fun _ => ?_
      cases Table.get? key others with
      | none => exact iff_of_false Bool.false_ne_true fun ⟨_, h, _⟩ => nomatch h
      | some other =>
          constructor
          · exact fun h => ⟨other, rfl, h⟩
          · rintro ⟨_, heq, h⟩
            rw [← Option.some.inj heq] at h
            exact h

/-- Equal objects have the same keys in some order, and alike values under them. -/
theorem agrees_obj_iff {fields others : Table Json} (hnodup : (fields.map (·.1)).Nodup) :
    agrees (.obj fields) (.obj others) = true ↔
      (fields.map (·.1)).Perm (others.map (·.1)) ∧ ∀ field ∈ fields,
        ∃ other, Table.get? field.1 others = some other ∧ alike field.2 other = true := by
  rw [agrees, Bool.and_eq_true, beq_iff_eq, fieldsAgree_iff]
  refine and_congr_left fun h => ⟨fun hlength => ?_, fun hperm => ?_⟩
  · -- Every key is found in the other object, and there are as many there.
    have hsub : ∀ key ∈ fields.map (·.1), key ∈ others.map (·.1) := fun key hkey => by
      rcases List.mem_map.mp hkey with ⟨field, hmem, rfl⟩
      rcases h field hmem with ⟨other, hother, _⟩
      exact List.mem_map.mpr ⟨_, Table.mem_of_get? _ _ _ hother, rfl⟩
    refine (List.subperm_of_subset hnodup hsub).perm_of_length_le (Nat.le_of_eq ?_)
    rw [List.length_map, List.length_map, hlength]
  · have hlength := hperm.length_eq
    rw [List.length_map, List.length_map] at hlength
    exact hlength

/-- The same told from the other object. -/
theorem agrees_obj_iff_right {fields others : Table Json} (hnodup : (fields.map (·.1)).Nodup)
    (hothers : (others.map (·.1)).Nodup) :
    agrees (.obj fields) (.obj others) = true ↔
      (fields.map (·.1)).Perm (others.map (·.1)) ∧ ∀ other ∈ others,
        ∃ value, Table.get? other.1 fields = some value ∧ alike value other.2 = true := by
  rw [agrees_obj_iff hnodup]
  refine and_congr_right fun hperm => ⟨fun h other hmem => ?_, fun h field hmem => ?_⟩
  · have hkey := hperm.mem_iff.mpr (List.mem_map.mpr ⟨other, hmem, rfl⟩)
    rcases Table.get?_of_mem_keys hkey with ⟨value, hvalue⟩
    rcases h _ (Table.mem_of_get? _ _ _ hvalue) with ⟨found, hfound, halike⟩
    rw [(Table.get?_eq_some_iff hothers other.1 other.2).mpr hmem] at hfound
    exact ⟨value, hvalue, Option.some.inj hfound ▸ halike⟩
  · have hkey := hperm.mem_iff.mp (List.mem_map.mpr ⟨field, hmem, rfl⟩)
    rcases Table.get?_of_mem_keys hkey with ⟨other, hother⟩
    rcases h _ (Table.mem_of_get? _ _ _ hother) with ⟨found, hfound, halike⟩
    rw [(Table.get?_eq_some_iff hnodup field.1 field.2).mpr hmem] at hfound
    exact ⟨other, hother, Option.some.inj hfound ▸ halike⟩

/-! ## Equality with a value of one kind -/

theorem agrees_str_iff (value : Json) (t : Text) :
    agrees value (.str t) = true ↔ value = .str t := by
  cases value with
  | str s =>
      rw [agrees, isText, beq_iff_eq, Json.str.injEq]
      exact eq_comm
  | null | arr _ | obj _ =>
      exact iff_of_false Bool.false_ne_true (by simp only [reduceCtorEq, not_false_eq_true])
  | bool _ | int _ | float _ =>
      exact iff_of_false Bool.false_ne_true (by simp only [reduceCtorEq, not_false_eq_true])

theorem agrees_texts_iff (value : Json) (texts : List Text) :
    agrees value (.arr (texts.map .str)) = true ↔ value = .arr (texts.map .str) := by
  cases value with
  | arr items =>
      rw [agrees, itemsAgree_iff, Json.arr.injEq]
      induction texts generalizing items with
      | nil =>
          rw [List.map_nil, List.forall₂_nil_right_iff]
      | cons t texts ih =>
          cases items with
          | nil => exact iff_of_false (fun h => nomatch h) (List.cons_ne_nil _ _).symm
          | cons item items =>
              rw [List.map_cons, List.forall₂_cons, ih, alike_eq_agrees rfl, agrees_str_iff,
                List.cons.injEq]
  | null | str _ | obj _ =>
      exact iff_of_false Bool.false_ne_true (by simp only [reduceCtorEq, not_false_eq_true])
  | bool _ | int _ | float _ =>
      exact iff_of_false Bool.false_ne_true (by simp only [reduceCtorEq, not_false_eq_true])

end Json

end QueryDesk
