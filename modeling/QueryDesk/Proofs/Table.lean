import Mathlib.Data.List.Nodup
import QueryDesk.Table

/-!
# Tables by their keys

A table is told by what is under each key: a value that is put in is the one
found afterwards, and every other key keeps its own. No key is there twice in a
table that was made by putting values in, so that its entries are just the pairs
that are found, and two such tables that find the same differ in their order only.

## Theorems

* `get?_put`, `get?_erase`, `get?_map`: What is found after a change.
* `put_comm`, `put_put`: Two values put one after the other.
* `keys_put`: A key that is new comes last.
* `update_of_nodup`: Entries with keys of their own come last, in their order.
* `get?_update`: What is put in last is found.
* `get?_eq_some_iff`: The entries are what is found, when no key is there twice.
* `perm_of_get?`: Tables that find the same have the same entries.
-/

namespace QueryDesk

namespace Table

variable {α : Type}

theorem get?_put (key other : Text) (value : α) (table : Table α) :
    get? other (put key value table) = if key = other then some value else get? other table := by
  induction table with
  | nil =>
      simp only [put, get?]
  | cons entry rest ih =>
      rcases entry with ⟨k, v⟩
      rw [put]
      by_cases hk : k = key
      · rw [if_pos hk, get?, get?, hk]
        by_cases hother : key = other
        · rw [if_pos hother, if_pos hother]
        · rw [if_neg hother, if_neg hother, if_neg hother]
      · rw [if_neg hk, get?, get?, ih]
        by_cases hother : k = other
        · rw [if_pos hother, if_pos hother, if_neg]
          exact fun hkey => hk (hother.trans hkey.symm)
        · rw [if_neg hother, if_neg hother]

theorem get?_erase (key other : Text) (table : Table α) :
    get? other (erase key table) = if key = other then none else get? other table := by
  induction table with
  | nil =>
      simp only [erase, List.filter_nil, get?, ite_self]
  | cons entry rest ih =>
      rcases entry with ⟨k, v⟩
      rw [erase] at ih ⊢
      by_cases hk : k = key
      · rw [List.filter_cons_of_neg (by simp only [hk, ne_eq, not_true_eq_false, decide_false,
          Bool.false_eq_true, not_false_eq_true]), ih, get?, hk]
        by_cases hother : key = other
        · rw [if_pos hother, if_pos hother]
        · rw [if_neg hother, if_neg hother, if_neg hother]
      · rw [List.filter_cons_of_pos (by simp only [ne_eq, hk, not_false_eq_true, decide_true]),
          get?, get?, ih]
        by_cases hother : k = other
        · rw [if_pos hother, if_pos hother, if_neg]
          exact fun hkey => hk (hother.trans hkey.symm)
        · rw [if_neg hother, if_neg hother]

/-- What is found when every value is changed. -/
theorem get?_map {β : Type} (f : Text → α → β) (table : Table α) (key : Text) :
    get? key (table.map fun entry => (entry.1, f entry.1 entry.2))
      = (get? key table).map (f key) := by
  induction table with
  | nil => rfl
  | cons entry rest ih =>
      rcases entry with ⟨name, value⟩
      rw [List.map_cons, get?, get?, ih]
      by_cases hname : name = key
      · rw [if_pos hname, if_pos hname, hname]
        rfl
      · rw [if_neg hname, if_neg hname]

theorem map_put {β : Type} (f : α → β) (key : Text) (value : α) (table : Table α) :
    (put key value table).map (fun entry => (entry.1, f entry.2))
      = put key (f value) (table.map fun entry => (entry.1, f entry.2)) := by
  induction table with
  | nil => rfl
  | cons entry rest ih =>
      rcases entry with ⟨name, old⟩
      rw [put, List.map_cons, put]
      by_cases hname : name = key
      · rw [if_pos hname, if_pos hname, List.map_cons]
      · rw [if_neg hname, if_neg hname, List.map_cons, ih]

/-- A value that is there already changes nothing. -/
theorem put_of_get? {key : Text} {value : α} {table : Table α} (h : get? key table = some value) :
    put key value table = table := by
  induction table with
  | nil => exact absurd h (Option.some_ne_none value).symm
  | cons entry rest ih =>
      rcases entry with ⟨name, old⟩
      rw [get?] at h
      rw [put]
      by_cases hname : name = key
      · rw [if_pos hname] at h ⊢
        rw [Option.some.inj h]
      · rw [if_neg hname] at h ⊢
        rw [ih h]

/-- Values under different keys can be put in either order, which shows in the order
    of the entries only. -/
theorem put_comm {key other : Text} (h : key ≠ other) (value second : α)
    (table : Table α) :
    (put key value (put other second table)).Perm (put other second (put key value table)) := by
  induction table with
  | nil =>
      simp only [put, if_neg h, if_neg h.symm]
      exact .swap _ _ _
  | cons entry rest ih =>
      rcases entry with ⟨name, old⟩
      by_cases hkey : name = key
      · subst hkey
        rw [put, if_neg h, put, if_pos rfl, put, if_pos rfl, put, if_neg h]
      by_cases hother : name = other
      · subst hother
        rw [put, if_pos rfl, put, if_neg h.symm, put, if_neg h.symm, put, if_pos rfl]
      · rw [put, if_neg hother, put, if_neg hkey, put, if_neg hkey, put, if_neg hother]
        exact ih.cons _

theorem get?_put_comm {key other : Text} (h : key ≠ other) (value second : α)
    (third : Text) (table : Table α) : get? third (put key value (put other second table))
      = get? third (put other second (put key value table)) := by
  simp only [get?_put]
  by_cases hthird : key = third
  · rw [if_pos hthird, if_neg fun hother => h (hthird.trans hother.symm), if_pos hthird]
  · rw [if_neg hthird, if_neg hthird]

/-- Of two values put under one key the later one stays. -/
theorem put_put (key : Text) (value second : α) (table : Table α) :
    put key second (put key value table) = put key second table := by
  induction table with
  | nil => simp only [put, if_true]
  | cons entry rest ih =>
      rcases entry with ⟨name, old⟩
      by_cases hkey : name = key
      · simp only [put, hkey, if_true]
      · simp only [put, if_neg hkey, ih]

theorem mem_of_get? (key : Text) (value : α) (table : Table α)
    (h : get? key table = some value) : (key, value) ∈ table := by
  induction table with
  | nil => exact absurd h (Option.some_ne_none value).symm
  | cons entry rest ih =>
      rcases entry with ⟨name, other⟩
      rw [get?] at h
      by_cases hname : name = key
      · rw [if_pos hname] at h
        rw [hname, Option.some.inj h]
        exact List.mem_cons_self
      · rw [if_neg hname] at h
        exact List.mem_cons_of_mem _ (ih h)

/-- The entries are what is found, when no key is there twice. -/
theorem get?_eq_some_iff {table : Table α} (hnodup : (table.map (·.1)).Nodup) (key : Text)
    (value : α) : get? key table = some value ↔ (key, value) ∈ table := by
  refine ⟨mem_of_get? key value table, fun h => ?_⟩
  induction table with
  | nil => exact absurd h List.not_mem_nil
  | cons entry rest ih =>
      rcases entry with ⟨name, other⟩
      rw [List.map_cons, List.nodup_cons] at hnodup
      rw [get?]
      rcases List.mem_cons.mp h with heq | hmem
      · rcases Prod.mk.inj heq with ⟨rfl, rfl⟩
        rw [if_pos rfl]
      · rw [if_neg]
        · exact ih hnodup.2 hmem
        · rintro rfl
          exact hnodup.1 (List.mem_map.mpr ⟨_, hmem, rfl⟩)

theorem get?_eq_none_iff (table : Table α) (key : Text) :
    get? key table = none ↔ key ∉ table.map (·.1) := by
  induction table with
  | nil => exact iff_of_true rfl List.not_mem_nil
  | cons entry rest ih =>
      rcases entry with ⟨name, value⟩
      rw [get?, List.map_cons, List.mem_cons, not_or, ← ih]
      by_cases hname : name = key
      · rw [if_pos hname]
        exact iff_of_false (Option.some_ne_none value) fun h => h.1 hname.symm
      · rw [if_neg hname]
        exact (and_iff_right (Ne.symm hname)).symm

theorem get?_of_mem_keys {table : Table α} {key : Text} (h : key ∈ table.map (·.1)) :
    ∃ value, get? key table = some value := by
  rw [← Option.ne_none_iff_exists', ne_eq, get?_eq_none_iff, not_not]
  exact h

/-- A key that is new comes last. -/
theorem keys_put (key : Text) (value : α) (table : Table α) :
    (put key value table).map (·.1)
      = if key ∈ table.map (·.1) then table.map (·.1) else table.map (·.1) ++ [key] := by
  induction table with
  | nil => rfl
  | cons entry rest ih =>
      rcases entry with ⟨name, old⟩
      rw [put, List.map_cons]
      by_cases hname : name = key
      · rw [if_pos hname, List.map_cons, if_pos (hname ▸ List.mem_cons_self)]
      · rw [if_neg hname, List.map_cons, ih]
        by_cases hmem : key ∈ rest.map (·.1)
        · rw [if_pos hmem, if_pos (List.mem_cons_of_mem _ hmem)]
        · rw [if_neg hmem, if_neg, List.cons_append]
          rw [List.mem_cons, not_or]
          exact ⟨Ne.symm hname, hmem⟩

theorem keys_put_of_mem {key : Text} {table : Table α} (h : key ∈ table.map (·.1)) (value : α) :
    (put key value table).map (·.1) = table.map (·.1) := by
  rw [keys_put, if_pos h]

theorem mem_of_mem_put {key : Text} {value : α} {table : Table α} {entry : Text × α}
    (h : entry ∈ put key value table) : entry = (key, value) ∨ entry ∈ table := by
  induction table with
  | nil => exact Or.inl (List.mem_singleton.mp h)
  | cons first rest ih =>
      rcases first with ⟨name, old⟩
      rw [put] at h
      split at h
      · next hname =>
          rw [hname] at h
          exact (List.mem_cons.mp h).imp id (List.mem_cons_of_mem _)
      · rcases List.mem_cons.mp h with rfl | h
        · exact Or.inr List.mem_cons_self
        · exact (ih h).imp id (List.mem_cons_of_mem _)

theorem mem_of_mem_update {table other : Table α} {entry : Text × α}
    (h : entry ∈ update table other) : entry ∈ table ∨ entry ∈ other := by
  induction other generalizing table with
  | nil => exact Or.inl h
  | cons first rest ih =>
      rcases ih h with hput | hrest
      · rcases mem_of_mem_put hput with rfl | htable
        · exact Or.inr List.mem_cons_self
        · exact Or.inl htable
      · exact Or.inr (List.mem_cons_of_mem _ hrest)

theorem put_of_not_mem {key : Text} {table : Table α} (h : key ∉ table.map (·.1)) (value : α) :
    put key value table = table ++ [(key, value)] := by
  induction table with
  | nil => rfl
  | cons entry rest ih =>
      rcases entry with ⟨name, old⟩
      rw [List.map_cons, List.mem_cons, not_or] at h
      rw [put, if_neg (Ne.symm h.1), ih h.2, List.cons_append]

/-- Entries with keys of their own come last, in their order. -/
theorem update_of_nodup {table other : Table α} (h : ((table ++ other).map (·.1)).Nodup) :
    update table other = table ++ other := by
  induction other generalizing table with
  | nil => exact (List.append_nil table).symm
  | cons entry rest ih =>
      have hnew : entry.1 ∉ table.map (·.1) := fun hmem => by
        rw [List.map_append, List.map_cons, List.nodup_append] at h
        exact h.2.2 _ hmem _ List.mem_cons_self rfl
      have hput : put entry.1 entry.2 table = table ++ [entry] := put_of_not_mem hnew entry.2
      change update (put entry.1 entry.2 table) rest = _
      rw [hput, ih (by rwa [List.append_assoc]), List.append_assoc, List.singleton_append]

theorem nodup_put {table : Table α} (h : (table.map (·.1)).Nodup) (key : Text) (value : α) :
    ((put key value table).map (·.1)).Nodup := by
  rw [keys_put]
  split
  · exact h
  · next hnew =>
      rw [List.nodup_append_comm, List.singleton_append, List.nodup_cons]
      exact ⟨hnew, h⟩

theorem nodup_update {table : Table α} (h : (table.map (·.1)).Nodup) (other : Table α) :
    ((update table other).map (·.1)).Nodup := by
  induction other generalizing table with
  | nil => exact h
  | cons entry rest ih => exact ih (nodup_put h entry.1 entry.2)

/-- What is put in last is found, and what was there where nothing is put in. -/
theorem get?_update {other : Table α} (hnodup : (other.map (·.1)).Nodup) (table : Table α)
    (key : Text) : get? key (update table other) = (get? key other).or (get? key table) := by
  induction other generalizing table with
  | nil => rfl
  | cons entry rest ih =>
      rcases entry with ⟨name, value⟩
      rw [List.map_cons, List.nodup_cons] at hnodup
      refine (ih hnodup.2 (put name value table)).trans ?_
      rw [get?_put, get?]
      by_cases hname : name = key
      · subst hname
        rw [if_pos rfl, if_pos rfl, (get?_eq_none_iff rest name).mpr hnodup.1]
        rfl
      · rw [if_neg hname, if_neg hname]

/-- Tables that find the same have the same entries, in some order. -/
theorem perm_of_get? {table other : Table α} (hnodup : (table.map (·.1)).Nodup)
    (hother : (other.map (·.1)).Nodup) (h : ∀ key, get? key table = get? key other) :
    table.Perm other := by
  refine (List.perm_ext_iff_of_nodup hnodup.of_map hother.of_map).mpr fun entry => ?_
  rw [← get?_eq_some_iff hnodup entry.1 entry.2, h, get?_eq_some_iff hother]

/-- Tables with the same entries find the same. -/
theorem get?_of_perm {table other : Table α} (hnodup : (table.map (·.1)).Nodup)
    (h : table.Perm other) (key : Text) : get? key table = get? key other := by
  refine Option.ext fun value => ?_
  rw [get?_eq_some_iff hnodup, get?_eq_some_iff ((h.map _).nodup_iff.mp hnodup), h.mem_iff]

end Table

end QueryDesk
