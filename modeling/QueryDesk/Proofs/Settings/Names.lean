import QueryDesk.Proofs.Json.Sorted
import QueryDesk.Proofs.Settings.Section

/-!
# Sections with names of any kind

A section that was put together from pairs can name its values by numbers and null
too. Keys and files put values under texts only, and a text is the same name as that
text alone: what is under any other name stays, and two values put under different
texts are both there, whichever came first.

The order in which names were put shows in a file only where names have no order of
their own. With a text among them they have one or none: either all are texts, which
are never equal, or the section cannot be written at all.

## Theorems

* `same_text_right`, `same_text_left`: A text is the same name as itself alone.
* `find?_put_text`: What is found after a value was put under a text.
* `find?_update_ofFields`: Fields that are put in are found before what was there.
* `put_text_comm`: Values under different texts can be put in either order.
* `nodup_put`: No name comes to be there twice.
* `printAt?_of_perm`: With a text among the names, their order does not show.
-/

namespace QueryDesk

namespace SettingName

theorem same_text_right (name : SettingName) (t : Text) :
    name.same (.text t) = decide (name = .text t) := by
  cases name with
  | text s => rw [same_text, decide_eq_decide, SettingName.text.injEq]
  | null | bool _ | int _ =>
      rw [decide_eq_false (by simp only [reduceCtorEq, not_false_eq_true])]
      rfl
  | float x =>
      rw [decide_eq_false (by simp only [reduceCtorEq, not_false_eq_true]), same]
      exact Bool.or_eq_false_iff.mpr ⟨Bool.and_false _, rfl⟩

theorem same_text_left (t : Text) (name : SettingName) :
    same (.text t) name = decide (name = .text t) := by
  cases name with
  | text s => rw [same_text, decide_eq_decide, SettingName.text.injEq, eq_comm]
  | null | bool _ | int _ | float _ =>
      rw [decide_eq_false (by simp only [reduceCtorEq, not_false_eq_true])]
      rfl

theorem same_self (name : SettingName) : name.same name = true := by
  cases name with
  | null => rfl
  | text t => exact beq_self_eq_true t
  | bool b => exact beq_self_eq_true b
  | int n => exact beq_self_eq_true n
  | float x => exact Json.agrees_refl_float x

end SettingName

namespace Section

/-! ## Values by their names -/

theorem find?_put_text (name : Text) (value : Json) (values : Section) (other : SettingName) :
    find? other (put (.text name) value values)
      = if other = .text name then some value else find? other values := by
  induction values with
  | nil =>
      simp only [put, find?, SettingName.same_text_left, decide_eq_true_eq]
  | cons entry values ih =>
      rcases entry with ⟨first, old⟩
      rw [put, SettingName.same_text_right]
      by_cases hfirst : first = .text name
      · rw [if_pos (decide_eq_true hfirst), hfirst, find?, find?, SettingName.same_text_left]
        simp only [decide_eq_true_eq]
        by_cases hother : other = .text name
        · rw [if_pos hother, if_pos hother]
        · rw [if_neg hother, if_neg hother, if_neg hother]
      · rw [if_neg (mt of_decide_eq_true hfirst), find?, find?, ih]
        by_cases hother : other = .text name
        · rw [if_pos hother, if_neg, if_pos hother]
          rw [hother, SettingName.same_text_right]
          exact mt of_decide_eq_true hfirst
        · rw [if_neg hother, if_neg hother]

theorem get?_put_text (name : Text) (value : Json) (values : Section) (other : Text) :
    get? other (put (.text name) value values)
      = if name = other then some value else get? other values := by
  rw [get?, find?_put_text]
  simp only [SettingName.text.injEq, eq_comm]
  rfl

/-- Fields that are put in are found before what was there. -/
theorem find?_update_ofFields {fields : Table Json} (hnodup : (fields.map (·.1)).Nodup)
    (values : Section) (name : SettingName) :
    find? name (update values (ofFields fields))
      = (find? name (ofFields fields)).or (find? name values) := by
  induction fields generalizing values with
  | nil => rfl
  | cons field fields ih =>
      rcases field with ⟨key, value⟩
      rw [List.map_cons, List.nodup_cons] at hnodup
      refine (ih hnodup.2 (put (.text key) value values)).trans ?_
      rw [find?_put_text, ofFields, ofFields, List.map_cons, find?, SettingName.same_text_left]
      simp only [decide_eq_true_eq]
      by_cases hname : name = .text key
      · have hnone : find? name (ofFields fields) = none := by
          rw [hname, ← get?, get?_ofFields]
          exact (Table.get?_eq_none_iff fields key).mpr hnodup.1
        rw [if_pos hname, if_pos hname, ← ofFields, hnone]
        rfl
      · rw [if_neg hname, if_neg hname]

/-- Values under different texts can be put in either order, which shows in the order
    of the names only. -/
theorem put_text_comm {name other : Text} (h : name ≠ other) (value second : Json)
    (values : Section) :
    (put (.text name) value (put (.text other) second values)).Perm
      (put (.text other) second (put (.text name) value values)) := by
  have hsame : SettingName.same (.text name) (.text other) = false := by
    rw [SettingName.same_text, decide_eq_false h]
  have hsymm : SettingName.same (.text other) (.text name) = false := by
    rw [SettingName.same_text, decide_eq_false h.symm]
  induction values with
  | nil =>
      simp only [put, hsame, hsymm, Bool.false_eq_true, if_false]
      exact .swap _ _ _
  | cons entry values ih =>
      rcases entry with ⟨first, old⟩
      by_cases hname : first = .text name
      · subst hname
        simp only [put, hsame, SettingName.same_self, Bool.false_eq_true, if_false, if_true]
        exact .refl _
      by_cases hother : first = .text other
      · subst hother
        simp only [put, hsymm, SettingName.same_self, Bool.false_eq_true, if_false, if_true]
        exact .refl _
      · simp only [put, SettingName.same_text_right, decide_eq_true_eq, if_neg hname,
          if_neg hother]
        exact ih.cons _

/-! ## Names that are there once -/

/-- A name is there already, or it comes last. -/
theorem names_put (name : SettingName) (value : Json) (values : Section) :
    (put name value values).map (·.1) = values.map (·.1)
      ∨ name ∉ values.map (·.1)
        ∧ (put name value values).map (·.1) = values.map (·.1) ++ [name] := by
  induction values with
  | nil => exact Or.inr ⟨List.not_mem_nil, rfl⟩
  | cons entry values ih =>
      rcases entry with ⟨first, old⟩
      rw [put]
      by_cases hsame : first.same name = true
      · rw [if_pos hsame]
        exact Or.inl rfl
      · rw [if_neg hsame, List.map_cons, List.map_cons]
        rcases ih with hnames | ⟨hnew, hnames⟩
        · exact Or.inl (congrArg _ hnames)
        · refine Or.inr ⟨?_, congrArg _ hnames⟩
          rw [List.mem_cons, not_or]
          refine ⟨fun heq => hsame ?_, hnew⟩
          rw [heq, SettingName.same_self]

theorem nodup_put {values : Section} (h : (values.map (·.1)).Nodup) (name : SettingName)
    (value : Json) : ((put name value values).map (·.1)).Nodup := by
  rcases names_put name value values with hnames | ⟨hnew, hnames⟩
  · rw [hnames]
    exact h
  · rw [hnames, List.nodup_append_comm, List.singleton_append, List.nodup_cons]
    exact ⟨hnew, h⟩

theorem nodup_update {values : Section} (h : (values.map (·.1)).Nodup) (others : Section) :
    ((update values others).map (·.1)).Nodup := by
  induction others generalizing values with
  | nil => exact h
  | cons other others ih => exact ih (nodup_put h other.1 other.2)

/-- A value that counts as a whole section has every name once. -/
theorem nodup_ofJson {value : Json} {values : Section}
    (hkeys : (value.fields.map (·.1)).Nodup) (h : ofJson value = .ok values) :
    (values.map (·.1)).Nodup := by
  cases value with
  | obj fields =>
      rw [← Except.ok.inj h, names_ofFields]
      exact hkeys.map fun a b => SettingName.text.inj
  | arr items =>
      rw [ofJson] at h
      cases hpairs : pairsOf items with
      | error failure =>
          rw [hpairs] at h
          exact absurd h (by simp only [Except.map, reduceCtorEq, not_false_eq_true])
      | ok entries =>
          rw [hpairs] at h
          have hempty : (([] : Section).map (·.1)).Nodup := List.nodup_nil
          rw [← Except.ok.inj h]
          exact nodup_update hempty entries
  | str t =>
      cases t with
      | nil =>
          rw [← Except.ok.inj h]
          exact List.nodup_nil
      | cons c t => exact absurd h (by simp only [ofJson, reduceCtorEq, not_false_eq_true])
  | null | bool _ | int _ | float _ =>
      exact absurd h (by simp only [ofJson, reduceCtorEq, not_false_eq_true])

/-! ## The order of names -/

/-- With a text among the names, the order in which they were put does not show: all
    are texts, which have one order, or they have none. -/
theorem ordered?_of_perm {values others : Section} (hnodup : (values.map (·.1)).Nodup)
    (htext : ∃ entry ∈ values, entry.1.isText = true) (h : values.Perm others) :
    values.ordered? = others.ordered? := by
  rcases htext with ⟨entry, hmem, htext⟩
  have hnumber : ∀ {names : Section}, entry ∈ names →
      ¬ (names.all fun entry => entry.1.isNumber) = true := fun hmem hall => by
    rcases entry with ⟨name, value⟩
    have hnumber := List.all_eq_true.mp hall _ hmem
    cases name with
    | text t => exact absurd hnumber Bool.false_ne_true
    | null | bool _ | int _ | float _ => exact absurd htext Bool.false_ne_true
  have hall : (values.all fun entry => entry.1.isText) = others.all fun entry => entry.1.isText :=
    h.all_eq
  rw [ordered?, ordered?, ← hall]
  by_cases htexts : (values.all fun entry => entry.1.isText) = true
  · rw [if_pos htexts, if_pos htexts]
    have hsorted := List.pairwise_mergeSort
      (fun (a b c : SettingName × Json) =>
        Text.precedes_trans a.1.written b.1.written c.1.written)
      fun a b => Text.precedes_total a.1.written b.1.written
    refine congrArg some (List.Perm.eq_of_pairwise (fun a b ha hb hab hba => ?_)
      (hsorted values) (hsorted others)
      ((List.mergeSort_perm _ _).trans (h.trans (List.mergeSort_perm _ _).symm)))
    have hleft := (List.mergeSort_perm _ _).mem_iff.mp ha
    have hright := h.mem_iff.mpr ((List.mergeSort_perm _ _).mem_iff.mp hb)
    refine List.inj_on_of_nodup_map hnodup hleft hright ?_
    -- Two names that are texts and written the same are the same.
    have hwritten := Text.precedes_antisymm hab hba
    have hatext := List.all_eq_true.mp htexts a hleft
    have hbtext := List.all_eq_true.mp htexts b hright
    cases hname : a.1 with
    | text s =>
        cases hother : b.1 with
        | text t =>
            rw [hname, hother] at hwritten
            exact congrArg SettingName.text hwritten
        | null | bool _ | int _ | float _ =>
            rw [hother] at hbtext
            exact absurd hbtext Bool.false_ne_true
    | null | bool _ | int _ | float _ =>
        rw [hname] at hatext
        exact absurd hatext Bool.false_ne_true
  · rw [if_neg htexts, if_neg htexts, if_neg (hnumber hmem), if_neg (hnumber (h.mem_iff.mp hmem)),
      ← h.length_eq]
    have hlong : ¬ values.length ≤ 1 := fun hshort => by
      -- A section with one name, which is a text, has texts only.
      rcases List.length_eq_one_iff.mp (Nat.le_antisymm hshort (List.length_pos_of_mem hmem)) with
        ⟨only, rfl⟩
      rw [List.mem_singleton] at hmem
      rw [List.all_cons, ← hmem, htext] at htexts
      exact htexts rfl
    rw [if_neg hlong, if_neg hlong]

theorem printAt?_of_perm {values others : Section} (hnodup : (values.map (·.1)).Nodup)
    (htext : ∃ entry ∈ values, entry.1.isText = true) (h : values.Perm others) (depth : Nat) :
    values.printAt? depth = others.printAt? depth := by
  rw [printAt?, printAt?, ordered?_of_perm hnodup htext h]

end Section

end QueryDesk
