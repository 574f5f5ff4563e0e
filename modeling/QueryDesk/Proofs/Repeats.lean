import Mathlib.Data.List.Induction
import Mathlib.Data.List.Nodup

/-!
# Repeats in lists

Of a list with repeats the first place of each item is kept. From the end of the list this
says that a last item is kept unless it was there before. From its front, where the items
that were met are remembered, an item that was met is left out later, whether it is
remembered or erased.

## Theorems

* `eraseDups_cons_filter`: What a first item leaves out.
* `eraseDups_concat`: What a last item adds.
* `eraseDups_nodup`: No item is kept twice.
* `eraseDups_of_nodup`: A list without repeats is kept as it is.
-/

namespace QueryDesk

variable {α : Type} [BEq α]

/-- What is left of the items that were not met, after one more of them is met. -/
theorem eraseDups_cons_filter (p : α → Bool) (met : List α) (item : α) (rest : List α) :
    (item :: rest.filter fun other => p other && !met.contains other).eraseDups
      = item :: (rest.filter fun other => p other && !(item :: met).contains other).eraseDups := by
  rw [List.eraseDups_cons, List.filter_filter]
  refine congrArg (fun items => item :: List.eraseDups items) (List.filter_congr fun other _ => ?_)
  rw [List.contains_cons, Bool.not_or, Bool.and_left_comm]

variable [LawfulBEq α]

/-- A last item is kept unless it was there before. -/
theorem eraseDups_concat (items : List α) (item : α) :
    (items ++ [item]).eraseDups
      = if item ∈ items then items.eraseDups else items.eraseDups ++ [item] := by
  rw [List.eraseDups_append, List.cons_removeAll, List.nil_removeAll]
  by_cases hmem : item ∈ items
  · rw [if_pos hmem, if_neg (by simp only [List.contains_iff_mem.mpr hmem, Bool.true_eq_false,
      not_false_eq_true]), List.eraseDups_nil, List.append_nil]
  · have hno : items.contains item = false := by
      rw [← Bool.not_eq_true, List.contains_iff_mem]
      exact hmem
    rw [if_neg hmem, if_pos hno]
    rfl

theorem eraseDups_nodup (items : List α) : items.eraseDups.Nodup := by
  induction items using List.reverseRecOn with
  | nil => exact List.nodup_nil
  | append_singleton items item ih =>
      rw [eraseDups_concat]
      split
      · exact ih
      · next hmem =>
          rw [← List.concat_eq_append]
          exact ih.concat fun h => hmem (List.mem_eraseDups.mp h)

theorem eraseDups_of_nodup {items : List α} (h : items.Nodup) : items.eraseDups = items := by
  induction items using List.reverseRecOn with
  | nil => exact List.eraseDups_nil
  | append_singleton items item ih =>
      rw [← List.concat_eq_append, List.nodup_concat] at h
      rw [eraseDups_concat, if_neg h.1, ih h.2]

end QueryDesk
