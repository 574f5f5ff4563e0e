import Mathlib.Data.List.Forall2

/-!
# Lists gone through as a whole

Something is made of each item of a list, and of the list only when every item gives
something. What the list gives then stands beside the items, one for one and in their
order.

## Theorems

* `exists_mapM_iff`: A list gives something just when each of its items does.
* `of_mem_mapM`: What a list gives comes of its items.
* `mapM_eq_some`: A list whose items give what a function says.
* `mapM_forall₂`: What a list gives stands beside its items.
-/

namespace QueryDesk

-- Each item of a list gives something just when the list does.
theorem exists_mapM_iff {α β : Type} (f : α → Option β) (items : List α) :
    (∃ values, items.mapM f = some values) ↔ ∀ item ∈ items, ∃ value, f item = some value := by
  induction items with
  | nil => exact iff_of_true ⟨[], rfl⟩ fun item hitem => absurd hitem List.not_mem_nil
  | cons item items ih =>
      rw [List.forall_mem_cons, ← ih, List.mapM_cons]
      cases hitem : f item with
      | none =>
          refine iff_of_false ?_ fun h => ?_
          · rintro ⟨values, hvalues⟩
            exact absurd hvalues (by simp only [Option.bind_eq_bind, Option.bind_none, reduceCtorEq,
              not_false_eq_true])
          · rcases h.1 with ⟨value, hvalue⟩
            exact absurd hvalue (by simp only [reduceCtorEq, not_false_eq_true])
      | some value =>
          cases hitems : items.mapM f with
          | none =>
              refine iff_of_false ?_ fun h => ?_
              · rintro ⟨values, hvalues⟩
                exact absurd hvalues (by simp only [Option.bind_eq_bind, Option.bind_some,
                  Option.bind_none, reduceCtorEq, not_false_eq_true])
              · rcases h.2 with ⟨values, hvalues⟩
                exact absurd hvalues (by simp only [reduceCtorEq, not_false_eq_true])
          | some values => exact iff_of_true ⟨value :: values, rfl⟩ ⟨⟨value, rfl⟩, values, rfl⟩

-- What a list gives comes of its items.
theorem of_mem_mapM {α β : Type} (f : α → Option β) (items : List α) (values : List β)
    (h : items.mapM f = some values) (value : β) (hvalue : value ∈ values) :
    ∃ item ∈ items, f item = some value := by
  induction items generalizing values with
  | nil =>
      rw [← Option.some.inj (h : some [] = some values)] at hvalue
      exact absurd hvalue List.not_mem_nil
  | cons item items ih =>
      rw [List.mapM_cons, Option.bind_eq_bind, Option.bind_eq_some_iff] at h
      rcases h with ⟨first, hfirst, h⟩
      rw [Option.bind_eq_bind, Option.bind_eq_some_iff] at h
      rcases h with ⟨rest, hrest, h⟩
      rw [← Option.some.inj (h : some (first :: rest) = some values)] at hvalue
      rcases List.mem_cons.mp hvalue with rfl | hvalue
      · exact ⟨item, List.mem_cons_self, hfirst⟩
      · rcases ih rest hrest hvalue with ⟨found, hfound, hf⟩
        exact ⟨found, List.mem_cons_of_mem item hfound, hf⟩

theorem mapM_eq_some {α β : Type} {f : α → Option β} {g : α → β} {items : List α}
    (h : ∀ item ∈ items, f item = some (g item)) : items.mapM f = some (items.map g) := by
  induction items with
  | nil => rfl
  | cons item items ih =>
      rw [List.forall_mem_cons] at h
      rw [List.mapM_cons, h.1, ih h.2]
      rfl

/-- When each item gives something it is related to, the list gives these one for one. -/
theorem mapM_forall₂ {α β : Type} {f : α → Option β} {R : α → β → Prop} {items : List α}
    (h : ∀ item ∈ items, ∃ value, f item = some value ∧ R item value) :
    ∃ values, items.mapM f = some values ∧ List.Forall₂ R items values := by
  induction items with
  | nil => exact ⟨[], rfl, .nil⟩
  | cons item items ih =>
      rw [List.forall_mem_cons] at h
      rcases h.1 with ⟨value, hvalue, hrelated⟩
      rcases ih h.2 with ⟨values, hvalues, hall⟩
      refine ⟨value :: values, ?_, .cons hrelated hall⟩
      rw [List.mapM_cons, hvalue, hvalues]
      rfl

end QueryDesk
