import Mathlib.Data.List.Sort
import QueryDesk.Json.Reader
import QueryDesk.Json.Printer
import QueryDesk.Proofs.Json.Agree
import QueryDesk.Proofs.Text.Order

/-!
# Values up to the order of fields

A file has the fields of every object in the order of their keys, and memory has
them in the order they were put. `Json.sorted` is the form that both have in
common: a value with the fields of all its objects in the order of their keys. Two
values with one sorted form differ in the order of fields only, and whatever is
equal to the one as settings is equal to the other.

## Main definitions

* `Json.sorted`: The value with all fields in the order of their keys.
* `Json.Keyed`: No object in the value has a key twice.
* `Json.Regular`: A value as a file can hold one: no key twice, no long integer.

## Theorems

* `sortByKey_congr`: Fields without a key twice have one order.
* `sorted_sorted`: Sorting twice does nothing more.
* `sorted_obj_eq_iff`: Objects with one sorted form have the same under each key.
* `alike_of_sorted`: Equality as settings does not see the order of fields.
* `depth_sorted_le_iff`: Sorting leaves the depth.
-/

namespace QueryDesk

namespace Json

/-! ## Fields in the order of their keys -/

section Fields

variable {α β : Type}

theorem sortByKey_perm (fields : List (Text × α)) : (sortByKey fields).Perm fields :=
  List.mergeSort_perm fields _

theorem pairwise_sortByKey (fields : List (Text × α)) :
    (sortByKey fields).Pairwise fun a b => Text.precedes a.1 b.1 = true :=
  List.pairwise_mergeSort (fun a b c => Text.precedes_trans a.1 b.1 c.1)
    (fun a b => Text.precedes_total a.1 b.1) fields

/-- Fields without a key twice have one order. -/
theorem sortByKey_congr {fields others : List (Text × α)} (hnodup : (fields.map (·.1)).Nodup)
    (h : fields.Perm others) : sortByKey fields = sortByKey others := by
  refine List.Perm.eq_of_pairwise (fun a b ha hb hab hba => ?_) (pairwise_sortByKey fields)
    (pairwise_sortByKey others)
    ((sortByKey_perm fields).trans (h.trans (sortByKey_perm others).symm))
  have hmem := (sortByKey_perm fields).mem_iff.mp ha
  have hother := h.mem_iff.mpr ((sortByKey_perm others).mem_iff.mp hb)
  exact List.inj_on_of_nodup_map hnodup hmem hother (Text.precedes_antisymm hab hba)

theorem sortByKey_sortByKey (fields : List (Text × α)) :
    sortByKey (sortByKey fields) = sortByKey fields :=
  List.mergeSort_of_pairwise (pairwise_sortByKey fields)

-- The order does not depend on the values.
theorem map_sortByKey (f : Text × α → β) (g : Text × α → Text × β)
    (h : ∀ field, g field = (field.1, f field)) (fields : List (Text × α)) :
    (sortByKey fields).map g = sortByKey (fields.map g) := by
  refine List.map_mergeSort fun a _ b _ => ?_
  rw [h, h]

end Fields

/-! ## The sorted form -/

mutual

/-- The value with the fields of all its objects in the order of their keys. -/
def sorted : Json → Json
  | .arr items => .arr (itemsSorted items)
  | .obj fields => .obj (sortByKey (fieldsSorted fields))
  | .null => .null
  | .bool b => .bool b
  | .int n => .int n
  | .float x => .float x
  | .str t => .str t

/-- The items, each with its fields in order. -/
def itemsSorted : List Json → List Json
  | [] => []
  | item :: items => sorted item :: itemsSorted items

/-- The fields in their own order, each value with its fields in order. -/
def fieldsSorted : List (Text × Json) → List (Text × Json)
  | [] => []
  | (key, value) :: fields => (key, sorted value) :: fieldsSorted fields

end

/-- A field with its value sorted. -/
def sortedField (field : Text × Json) : Text × Json :=
  (field.1, field.2.sorted)

theorem itemsSorted_eq (items : List Json) : itemsSorted items = items.map sorted := by
  induction items with
  | nil => rfl
  | cons item items ih => rw [itemsSorted, ih, List.map_cons]

theorem fieldsSorted_eq (fields : List (Text × Json)) :
    fieldsSorted fields = fields.map sortedField := by
  induction fields with
  | nil => rfl
  | cons field fields ih =>
      rcases field with ⟨key, value⟩
      rw [fieldsSorted, ih, List.map_cons]
      rfl

theorem sorted_arr (items : List Json) : sorted (.arr items) = .arr (items.map sorted) := by
  rw [sorted, itemsSorted_eq]

theorem sorted_obj (fields : List (Text × Json)) :
    sorted (.obj fields) = .obj (sortByKey (fields.map sortedField)) := by
  rw [sorted, fieldsSorted_eq]

theorem keys_sortedField (fields : List (Text × Json)) :
    (fields.map sortedField).map (·.1) = fields.map (·.1) := by
  rw [List.map_map]
  rfl

theorem map_sortedField_sortByKey (fields : List (Text × Json)) :
    (sortByKey fields).map sortedField = sortByKey (fields.map sortedField) :=
  map_sortByKey (fun field => field.2.sorted) sortedField (fun _ => rfl) fields

/-- Sorting twice does nothing more. -/
theorem sorted_sorted (value : Json) : value.sorted.sorted = value.sorted := by
  induction value using Json.induction with
  | null | bool b | int n | float x | str t => rfl
  | arr items ih =>
      rw [sorted_arr, sorted_arr, List.map_map]
      exact congrArg Json.arr (List.map_congr_left ih)
  | obj fields ih =>
      have hfields : (fields.map sortedField).map sortedField = fields.map sortedField := by
        rw [List.map_map]
        exact List.map_congr_left fun field hmem => congrArg (field.1, ·) (ih field hmem)
      rw [sorted_obj, sorted_obj, map_sortedField_sortByKey, hfields, sortByKey_sortByKey]

theorem get?_sortedField (fields : Table Json) (key : Text) :
    Table.get? key (fields.map sortedField) = (Table.get? key fields).map sorted :=
  Table.get?_map (fun _ => sorted) fields key

/-- Objects have one sorted form just when they have the same keys, and under each
    of them values with one sorted form. -/
theorem sorted_obj_eq_iff {fields others : Table Json} (hfields : (fields.map (·.1)).Nodup)
    (hothers : (others.map (·.1)).Nodup) :
    sorted (.obj fields) = sorted (.obj others)
      ↔ ∀ key, (Table.get? key fields).map sorted = (Table.get? key others).map sorted := by
  rw [← keys_sortedField] at hfields hothers
  simp only [← get?_sortedField]
  rw [sorted_obj, sorted_obj, Json.obj.injEq]
  constructor
  · intro h key
    have hperm := sortByKey_perm (fields.map sortedField)
    rw [h] at hperm
    exact Table.get?_of_perm hfields (hperm.symm.trans (sortByKey_perm _)) key
  · exact fun h => sortByKey_congr hfields (Table.perm_of_get? hfields hothers h)

/-! ## Depth -/

theorem itemsDepth_le_iff (items : List Json) (n : Nat) :
    itemsDepth items ≤ n ↔ ∀ item ∈ items, item.depth ≤ n := by
  induction items with
  | nil => exact iff_of_true (Nat.zero_le n) fun _ h => absurd h List.not_mem_nil
  | cons item items ih => rw [itemsDepth, Nat.max_le, ih, List.forall_mem_cons]

theorem fieldsDepth_le_iff (fields : List (Text × Json)) (n : Nat) :
    fieldsDepth fields ≤ n ↔ ∀ field ∈ fields, field.2.depth ≤ n := by
  induction fields with
  | nil => exact iff_of_true (Nat.zero_le n) fun _ h => absurd h List.not_mem_nil
  | cons field fields ih =>
      rcases field with ⟨key, value⟩
      rw [fieldsDepth, Nat.max_le, ih, List.forall_mem_cons]

theorem depth_arr_le_iff (items : List Json) (n : Nat) :
    depth (.arr items) ≤ n + 1 ↔ ∀ item ∈ items, item.depth ≤ n := by
  rw [depth, Nat.succ_le_succ_iff, itemsDepth_le_iff]

theorem depth_obj_le_iff (fields : List (Text × Json)) (n : Nat) :
    depth (.obj fields) ≤ n + 1 ↔ ∀ field ∈ fields, field.2.depth ≤ n := by
  rw [depth, Nat.succ_le_succ_iff, fieldsDepth_le_iff]

/-- Sorting leaves the depth. -/
theorem depth_sorted_le_iff (value : Json) (n : Nat) :
    value.sorted.depth ≤ n ↔ value.depth ≤ n := by
  induction value using Json.induction generalizing n with
  | null | bool b | int n | float x | str t => rfl
  | arr items ih =>
      cases n with
      | zero => exact iff_of_false (Nat.not_succ_le_zero _) (Nat.not_succ_le_zero _)
      | succ n =>
          rw [sorted_arr, depth_arr_le_iff, depth_arr_le_iff, List.forall_mem_map]
          exact forall₂_congr fun item hmem => ih item hmem n
  | obj fields ih =>
      cases n with
      | zero =>
          refine iff_of_false ?_ (Nat.not_succ_le_zero _)
          rw [sorted_obj]
          exact Nat.not_succ_le_zero _
      | succ n =>
          rw [sorted_obj, depth_obj_le_iff, depth_obj_le_iff]
          simp only [(sortByKey_perm _).mem_iff, List.forall_mem_map]
          exact forall₂_congr fun field hmem => ih field hmem n

/-! ## Regular values -/

/-- No object in the value has a key twice. -/
inductive Keyed : Json → Prop
  | null : Keyed .null
  | bool (b : Bool) : Keyed (.bool b)
  | int (n : Int) : Keyed (.int n)
  | float (x : Binary64) : Keyed (.float x)
  | str (t : Text) : Keyed (.str t)
  | arr (items : List Json) (inside : ∀ item ∈ items, Keyed item) : Keyed (.arr items)
  | obj (fields : List (Text × Json)) (keys : (fields.map (·.1)).Nodup)
      (inside : ∀ field ∈ fields, Keyed field.2) : Keyed (.obj fields)

/-- A value as a file can hold one: no object has a key twice, and no integer has
    more digits than can be converted. -/
inductive Regular : Json → Prop
  | null : Regular .null
  | bool (b : Bool) : Regular (.bool b)
  | int (n : Int) (short : Text.isShortNumeral (Text.ofNat n.natAbs) = true) : Regular (.int n)
  | float (x : Binary64) : Regular (.float x)
  | str (t : Text) : Regular (.str t)
  | arr (items : List Json) (inside : ∀ item ∈ items, Regular item) : Regular (.arr items)
  | obj (fields : List (Text × Json)) (keys : (fields.map (·.1)).Nodup)
      (inside : ∀ field ∈ fields, Regular field.2) : Regular (.obj fields)

theorem Regular.keyed {value : Json} (h : value.Regular) : value.Keyed := by
  induction h with
  | null => exact .null
  | bool b => exact .bool b
  | int n _ => exact .int n
  | float x => exact .float x
  | str t => exact .str t
  | arr items _ ih => exact .arr items ih
  | obj fields keys _ ih => exact .obj fields keys ih

theorem Regular.sorted {value : Json} (h : value.Regular) : value.sorted.Regular := by
  induction h with
  | null => exact .null
  | bool b => exact .bool b
  | int n short => exact .int n short
  | float x => exact .float x
  | str t => exact .str t
  | arr items _ ih =>
      rw [sorted_arr]
      exact .arr _ (List.forall_mem_map.mpr ih)
  | obj fields keys _ ih =>
      rw [sorted_obj]
      refine .obj _ ?_ fun field hmem => ?_
      · rw [((sortByKey_perm _).map _).nodup_iff, keys_sortedField]
        exact keys
      · rw [(sortByKey_perm _).mem_iff] at hmem
        rcases List.mem_map.mp hmem with ⟨other, hother, rfl⟩
        exact ih other hother

/-! ## Equality as settings -/

theorem agrees_refl_float (x : Binary64) : alike (.float x) (.float x) = true := by
  cases x with
  | nan => rfl
  | infinity negative => exact beq_self_eq_true negative
  | finite negative mantissa shift =>
      rw [alike, agrees, sameNumber, Binary64.same, beq_self_eq_true, beq_self_eq_true]
      rfl

/-- Inside a list or an object every value is equal to itself. -/
theorem Keyed.alike_self {value : Json} (h : value.Keyed) : alike value value = true := by
  induction h with
  | null => rfl
  | bool b => exact beq_self_eq_true b
  | int n => exact beq_self_eq_true n
  | float x => exact agrees_refl_float x
  | str t => exact beq_self_eq_true t
  | arr items _ ih =>
      rw [alike_eq_agrees rfl, agrees, itemsAgree_iff]
      exact List.forall₂_same.mpr ih
  | obj fields keys _ ih =>
      rw [alike_eq_agrees rfl, agrees_obj_iff keys]
      exact ⟨.refl _, fun field hmem =>
        ⟨field.2, (Table.get?_eq_some_iff keys field.1 field.2).mpr hmem, ih field hmem⟩⟩

theorem alike_refl {value : Json} (h : value.Regular) : alike value value = true :=
  h.keyed.alike_self

-- A value with the sorted form of a list or an object is one, and another is the value itself.
theorem eq_of_sorted {value other : Json} (h : value.sorted = other.sorted) :
    value = other
      ∨ (∃ items others, value = .arr items ∧ other = .arr others
          ∧ items.map sorted = others.map sorted)
      ∨ ∃ fields others, value = .obj fields ∧ other = .obj others
          ∧ (fields.map sortedField).Perm (others.map sortedField) := by
  cases value with
  | arr items =>
      cases other with
      | arr others =>
          rw [sorted_arr, sorted_arr] at h
          exact Or.inr (Or.inl ⟨items, others, rfl, rfl, Json.arr.inj h⟩)
      | null | bool _ | int _ | float _ | str _ | obj _ =>
          exact absurd h (by simp only [sorted, reduceCtorEq, not_false_eq_true])
  | obj fields =>
      cases other with
      | obj others =>
          rw [sorted_obj, sorted_obj] at h
          refine Or.inr (Or.inr ⟨fields, others, rfl, rfl, ?_⟩)
          have hperm := sortByKey_perm (fields.map sortedField)
          rw [Json.obj.inj h] at hperm
          exact hperm.symm.trans (sortByKey_perm _)
      | null | bool _ | int _ | float _ | str _ | arr _ =>
          exact absurd h (by simp only [sorted, reduceCtorEq, not_false_eq_true])
  | null | bool _ | int _ | float _ | str _ =>
      cases other with
      | arr _ | obj _ => exact absurd h (by simp only [sorted, reduceCtorEq, not_false_eq_true])
      | null | bool _ | int _ | float _ | str _ => exact Or.inl h

theorem exists_obj_of_sorted {value : Json} {fields : Table Json}
    (h : value.sorted = sorted (.obj fields)) : ∃ others, value = .obj others := by
  rcases eq_of_sorted h with rfl | ⟨_, _, _, hvalue, _⟩ | ⟨others, _, rfl, _, _⟩
  · exact ⟨fields, rfl⟩
  · exact absurd hvalue (by simp only [reduceCtorEq, not_false_eq_true])
  · exact ⟨others, rfl⟩

-- Each value that has the sorted form of another one is alike what the other one is alike.
theorem forall₂_of_sorted {items others thirds : List Json}
    (hitems : ∀ item ∈ items, ∀ {other third : Json}, other.Regular → other.sorted = item.sorted →
      alike item third = true → alike other third = true)
    (hothers : ∀ other ∈ others, other.Regular) (hsorted : others.map sorted = items.map sorted)
    (h : List.Forall₂ (fun item third => alike item third = true) items thirds) :
    List.Forall₂ (fun other third => alike other third = true) others thirds := by
  induction h generalizing others with
  | nil =>
      rw [List.map_nil, List.map_eq_nil_iff] at hsorted
      rw [hsorted]
      exact .nil
  | cons halike _ ih =>
      cases others with
      | nil => exact absurd hsorted.symm (List.cons_ne_nil _ _)
      | cons other others =>
          rw [List.map_cons, List.map_cons, List.cons.injEq] at hsorted
          refine .cons (hitems _ List.mem_cons_self (hothers other List.mem_cons_self) hsorted.1
            halike) (ih (fun item hmem => hitems item (List.mem_cons_of_mem _ hmem))
            (fun other hmem => hothers other (List.mem_cons_of_mem _ hmem)) hsorted.2)

/-- Equality as settings does not see the order of fields. -/
theorem alike_of_sorted {value : Json} (hvalue : value.Regular) {other third : Json}
    (hother : other.Regular) (h : other.sorted = value.sorted)
    (halike : alike value third = true) : alike other third = true := by
  induction hvalue generalizing other third with
  | null | bool _ | int _ _ | float _ | str _ =>
      rcases eq_of_sorted h with rfl | ⟨_, _, _, hvalue, _⟩ | ⟨_, _, _, hvalue, _⟩
      · exact halike
      · exact absurd hvalue (by simp only [reduceCtorEq, not_false_eq_true])
      · exact absurd hvalue (by simp only [reduceCtorEq, not_false_eq_true])
  | arr items _ ih =>
      rcases eq_of_sorted h with rfl | ⟨others, _, rfl, hvalue, hsorted⟩ | ⟨_, _, _, hvalue, _⟩
      · exact halike
      · rw [← Json.arr.inj hvalue] at hsorted
        cases hother with
        | arr _ hothers =>
            cases third with
            | arr thirds =>
                rw [alike_eq_agrees rfl, agrees, itemsAgree_iff] at halike ⊢
                exact forall₂_of_sorted ih hothers hsorted halike
            | null | bool _ | int _ | float _ | str _ | obj _ =>
                exact absurd halike Bool.false_ne_true
      · exact absurd hvalue (by simp only [reduceCtorEq, not_false_eq_true])
  | obj fields keys _ ih =>
      rcases eq_of_sorted h with rfl | ⟨_, _, _, hvalue, _⟩ | ⟨others, _, rfl, hvalue, hperm⟩
      · exact halike
      · exact absurd hvalue (by simp only [reduceCtorEq, not_false_eq_true])
      · rw [← Json.obj.inj hvalue] at hperm
        cases hother with
        | obj _ hkeys hothers =>
            cases third with
            | obj thirds =>
                rw [alike_eq_agrees rfl, agrees_obj_iff keys] at halike
                rw [alike_eq_agrees rfl, agrees_obj_iff hkeys]
                have hsame := hperm.map (·.1)
                rw [keys_sortedField, keys_sortedField] at hsame
                refine ⟨hsame.trans halike.1, fun other hmem => ?_⟩
                -- The field has one of the first object beside it, with the same sorted value.
                rcases List.mem_map.mp (hperm.mem_iff.mp (List.mem_map_of_mem hmem)) with
                  ⟨field, hfield, heq⟩
                rcases Prod.mk.inj heq with ⟨hkey, hvalue⟩
                rcases halike.2 field hfield with ⟨third, hthird, hinside⟩
                rw [hkey] at hthird
                exact ⟨third, hthird,
                  ih field hfield (hothers other hmem) hvalue.symm hinside⟩
            | null | bool _ | int _ | float _ | str _ | arr _ =>
                exact absurd halike Bool.false_ne_true

end Json

end QueryDesk
