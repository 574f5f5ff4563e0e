import QueryDesk.Proofs.Json.Agree
import QueryDesk.Settings.Section

/-!
# Sections whose names are texts

What a file has for a section names its values by texts, and so do the defaults.
Such a section is the fields of an object: values are found and put as in a table
of texts, and it is equal to what the object is equal to.

## Theorems

* `get?_ofFields`, `put_ofFields`, `update_ofFields`: Fields as a section are a
  table.
* `agrees_ofFields`: They are equal to what the object is equal to.
* `exists_ofFields`: A section whose names are texts is made of fields.
-/

namespace QueryDesk

theorem SettingName.same_text (a b : Text) : same (.text a) (.text b) = decide (a = b) := by
  rw [Bool.eq_iff_iff, decide_eq_true_eq]
  exact (beq_iff_eq (a := b)).trans eq_comm

namespace Section

theorem get?_ofFields (name : Text) (fields : Table Json) :
    get? name (ofFields fields) = Table.get? name fields := by
  induction fields with
  | nil => rfl
  | cons field fields ih =>
      rcases field with ⟨key, value⟩
      rw [get?] at ih
      rw [get?, ofFields, List.map_cons, find?, SettingName.same_text, Table.get?, ← ofFields, ih]
      simp only [decide_eq_true_eq]

theorem put_ofFields (name : Text) (value : Json) (fields : Table Json) :
    put (.text name) value (ofFields fields) = ofFields (Table.put name value fields) := by
  induction fields with
  | nil => rfl
  | cons field fields ih =>
      rcases field with ⟨key, old⟩
      rw [ofFields, List.map_cons, put, SettingName.same_text, Table.put, ← ofFields, ih]
      by_cases hkey : key = name
      · rw [if_pos (decide_eq_true hkey), if_pos hkey]
        rfl
      · rw [if_neg (mt of_decide_eq_true hkey), if_neg hkey]
        rfl

theorem update_ofFields (fields others : Table Json) :
    update (ofFields fields) (ofFields others) = ofFields (Table.update fields others) := by
  induction others generalizing fields with
  | nil => rfl
  | cons other others ih =>
      rcases other with ⟨key, value⟩
      refine Eq.trans ?_ (ih (Table.put key value fields))
      rw [← put_ofFields]
      rfl

theorem toJson_ofFields (fields : Table Json) : toJson (ofFields fields) = .obj fields := by
  rw [toJson, ofFields, List.map_map]
  exact congrArg Json.obj (List.map_id fields)

theorem names_ofFields (fields : Table Json) :
    (ofFields fields).map (·.1) = (fields.map (·.1)).map .text := by
  rw [ofFields, List.map_map, List.map_map]
  rfl

theorem agrees_ofFields (fields : Table Json) (value : Json) :
    agrees (ofFields fields) value = Json.agrees (.obj fields) value := by
  cases value with
  | obj others =>
      have hvalues : valuesAgree others (ofFields fields) = Json.fieldsAgree fields others := by
        rw [Bool.eq_iff_iff, Json.fieldsAgree_iff, valuesAgree, ofFields, List.all_map,
          List.all_eq_true]
        refine forall₂_congr fun field _ => ?_
        rw [Function.comp_apply, Json.fieldsAgree_iff, List.forall_mem_singleton]
      rw [agrees, Json.agrees, hvalues, ofFields, List.length_map]
  | null | bool _ | int _ | float _ | str _ | arr _ => rfl

/-- A section whose names are texts is made of fields. -/
theorem exists_ofFields {values : Section} (h : ∀ entry ∈ values, entry.1.isText = true) :
    ∃ fields, values = ofFields fields := by
  induction values with
  | nil => exact ⟨[], rfl⟩
  | cons entry values ih =>
      rcases ih fun other hmem => h other (List.mem_cons_of_mem _ hmem) with ⟨fields, rfl⟩
      have htext := h entry List.mem_cons_self
      rcases entry with ⟨name, value⟩
      cases name with
      | text name => exact ⟨(name, value) :: fields, rfl⟩
      | null | bool _ | int _ | float _ => exact absurd htext Bool.false_ne_true

end Section

end QueryDesk
