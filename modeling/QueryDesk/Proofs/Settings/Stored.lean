import QueryDesk.Proofs.Collect
import QueryDesk.Proofs.Json.Given
import QueryDesk.Proofs.Json.Returns
import QueryDesk.Proofs.Settings.Loading
import QueryDesk.Proofs.Settings.Section
import QueryDesk.Proofs.Text.Line
import QueryDesk.Proofs.Text.Utf8

/-!
# Settings in a file

Sections whose names are all texts are an object, and they are written as that
object is. What is read from the file afterwards is the object with its fields in
the order of their keys. The defaults that are put below it on the way back make no
difference when the sections had a value under every name of theirs.

## Main definitions

* `Json.Storable`: A value that comes back from a file.
* `Sections.Storable`: Sections that come back from a file.
* `Sections.Covers`: Sections with a value under every name of the defaults.
* `Sections.Shallow`: Sections that are nested no deeper than can be taken over.

## Theorems

* `Sections.Storable.get?_of_sorted`: Sections with one sorted form have the same
  sections up to the order of fields.
* `Sections.print?_eq`: Sections are written as one object.
* `SettingsStore.parse_print`, `SettingsStore.eq_sorted_of_parse`: What is read from
  a file that an object was written to.
* `SettingsStore.withDefaults_storable`: What is taken over comes back from a file.
* `SettingsStore.withDefaults_sorted`: Sections that were written and are taken over
  are the same up to the order of fields.
-/

namespace QueryDesk

namespace Json

/-- The value comes back from a file it is written to. -/
structure Storable (value : Json) : Prop where
  regular : value.Regular
  faithful : value.Faithful

theorem storable_obj_iff (fields : Table Json) :
    Storable (.obj fields)
      ↔ (fields.map (·.1)).Nodup ∧ ∀ field ∈ fields, field.1.Separate ∧ field.2.Storable := by
  constructor
  · rintro ⟨hregular, hfaithful⟩
    cases hregular with
    | obj _ nodup regular =>
        cases hfaithful with
        | obj _ keys faithful =>
            exact ⟨nodup, fun field hmem =>
              ⟨keys field hmem, regular field hmem, faithful field hmem⟩⟩
  · rintro ⟨nodup, inside⟩
    exact ⟨.obj _ nodup fun field hmem => (inside field hmem).2.regular,
      .obj _ (fun field hmem => (inside field hmem).1)
        fun field hmem => (inside field hmem).2.faithful⟩

namespace Storable

variable {fields : Table Json}

theorem nil : Storable (.obj []) :=
  (storable_obj_iff []).mpr ⟨List.nodup_nil, fun _ hmem => absurd hmem List.not_mem_nil⟩

theorem nodup (h : Storable (.obj fields)) : (fields.map (·.1)).Nodup :=
  ((storable_obj_iff fields).mp h).1

theorem of_get? (h : Storable (.obj fields)) {key : Text} {value : Json}
    (hget : Table.get? key fields = some value) : key.Separate ∧ value.Storable :=
  ((storable_obj_iff fields).mp h).2 _ (Table.mem_of_get? key value fields hget)

theorem put (h : Storable (.obj fields)) {key : Text} (hkey : key.Separate) {value : Json}
    (hvalue : value.Storable) : Storable (.obj (Table.put key value fields)) := by
  rw [storable_obj_iff] at h ⊢
  refine ⟨Table.nodup_put h.1 key value, fun field hmem => ?_⟩
  rcases Table.mem_of_mem_put hmem with rfl | hmem
  · exact ⟨hkey, hvalue⟩
  · exact h.2 field hmem

theorem update (h : Storable (.obj fields)) {others : Table Json}
    (hothers : Storable (.obj others)) : Storable (.obj (Table.update fields others)) := by
  rw [storable_obj_iff] at h hothers ⊢
  exact ⟨Table.nodup_update h.1 others, fun field hmem =>
    (Table.mem_of_mem_update hmem).elim (h.2 field) (hothers.2 field)⟩

theorem sorted {value : Json} (h : value.Storable) : value.sorted.Storable :=
  ⟨h.regular.sorted, h.faithful.sorted⟩

end Storable

end Json

/-! ## Sections as they are written -/

theorem Section.printAt?_ofFields (depth : Nat) (fields : Table Json) :
    printAt? depth (ofFields fields) = some (Json.printAt depth (.obj fields)) := by
  have htexts : ((ofFields fields).all fun entry => entry.1.isText) = true := by
    rw [ofFields, List.all_map, List.all_eq_true]
    exact fun _ _ => rfl
  have hsort : (ofFields fields).mergeSort (fun a b => Text.precedes a.1.written b.1.written)
      = ofFields (Json.sortByKey fields) := by
    refine Eq.symm ?_
    rw [ofFields, ofFields, Json.sortByKey]
    exact List.map_mergeSort fun _ _ _ _ => rfl
  rw [printAt?, ordered?, if_pos htexts, hsort, Option.map_some, ofFields, List.map_map,
    Json.printAt_obj]
  rfl

theorem Section.has_ofFields (fields : Table Json) (key : Text) :
    (ofFields fields).Has key ↔ (Table.get? key fields).isSome = true := by
  rw [has_iff, ← get?, get?_ofFields]

namespace Sections

/-- The sections as fields of one object. -/
def fields (sections : Sections) : Table Json :=
  sections.map fun entry => (entry.1, Section.toJson entry.2)

theorem toJson_eq (sections : Sections) : toJson sections = .obj sections.fields := rfl

theorem keys_fields (sections : Sections) : sections.fields.map (·.1) = sections.map (·.1) := by
  rw [fields, List.map_map]
  rfl

theorem get?_fields (sections : Sections) (name : Text) :
    Table.get? name sections.fields = (Table.get? name sections).map Section.toJson :=
  Table.get?_map (fun _ => Section.toJson) sections name

theorem fields_put (sections : Sections) (name : Text) (values : Section) :
    fields (Table.put name values sections)
      = Table.put name (Section.toJson values) sections.fields :=
  Table.map_put Section.toJson name values sections

/-- The sections come back from a file: all names in them are texts, and the object
    they make comes back. -/
structure Storable (sections : Sections) : Prop where
  texts : ∀ entry ∈ sections, ∃ fields, entry.2 = Section.ofFields fields
  value : (toJson sections).Storable

/-- Sections are written as one object. -/
theorem print?_eq {sections : Sections}
    (h : ∀ entry ∈ sections, ∃ fields, entry.2 = Section.ofFields fields) :
    print? sections = some (toJson sections).print := by
  have hparts : ∀ entry ∈ Json.sortByKey sections,
      ((Section.printAt? 1 entry.2).map fun part => Json.escape entry.1 ++ ": " ++ part)
        = some (Json.fieldText 1 (entry.1, Section.toJson entry.2)) := by
    intro entry hmem
    rcases h entry ((Json.sortByKey_perm sections).mem_iff.mp hmem) with ⟨fields, hfields⟩
    rw [hfields, Section.printAt?_ofFields, Section.toJson_ofFields]
    rfl
  have hfields : (Json.sortByKey sections).map
      (fun entry => Json.fieldText 1 (entry.1, Section.toJson entry.2))
        = (Json.sortByKey sections.fields).map (Json.fieldText 1) := by
    rw [fields, ← Json.map_sortByKey (fun entry => Section.toJson entry.2) _ fun _ => rfl,
      List.map_map]
    rfl
  rw [print?, toJson_eq, Json.print, Json.printAt_obj, ← hfields]
  exact congrArg (Option.map _) (mapM_eq_some hparts)

variable {sections : Sections}

/-- A section of settings that come back is an object that comes back. -/
theorem Storable.of_get? (h : sections.Storable) {name : Text} {values : Section}
    (hget : Table.get? name sections = some values) :
    ∃ fields, values = Section.ofFields fields ∧ name.Separate
      ∧ (Json.obj fields).Storable := by
  rcases h.texts _ (Table.mem_of_get? name values sections hget) with ⟨fields, hfields⟩
  subst hfields
  have hfound : Table.get? name sections.fields = some (.obj fields) := by
    rw [get?_fields, hget, Option.map_some, Section.toJson_ofFields]
  exact ⟨fields, rfl, Json.Storable.of_get? h.value hfound⟩

theorem Storable.nodup (h : sections.Storable) : (sections.fields.map (·.1)).Nodup :=
  Json.Storable.nodup h.value

theorem Storable.nodup_names (h : sections.Storable) : (sections.map (·.1)).Nodup :=
  keys_fields sections ▸ h.nodup

theorem Storable.put (h : sections.Storable) {name : Text} (hname : name.Separate)
    {fields : Table Json} (hfields : (Json.obj fields).Storable) :
    Storable (Table.put name (.ofFields fields) sections) := by
  refine ⟨fun entry hmem => ?_, ?_⟩
  · rcases Table.mem_of_mem_put hmem with rfl | hmem
    · exact ⟨fields, rfl⟩
    · exact h.texts entry hmem
  · rw [toJson_eq, fields_put, Section.toJson_ofFields]
    exact Json.Storable.put h.value hname hfields

/-- The sections have a value under every name that the defaults have one under, and
    they are no other sections than those of the defaults. -/
structure Covers (sections defaults : Sections) : Prop where
  names : sections.map (·.1) = defaults.map (·.1)
  values : ∀ {name values base}, Table.get? name sections = some values →
    Table.get? name defaults = some base → ∀ inside, base.Has inside → values.Has inside

/-- No section is nested deeper than can be taken over. -/
def Shallow (sections : Sections) : Prop :=
  ∀ entry ∈ sections, (Section.toJson entry.2).depth ≤ SettingsStore.maxDepth

theorem Shallow.depth_le (h : sections.Shallow) :
    (toJson sections).depth ≤ SettingsStore.maxDepth + 1 := by
  rw [toJson_eq, Json.depth_obj_le_iff]
  exact List.forall_mem_map.mpr h

/-- The value under a name of a section. -/
def value? (name inside : Text) (sections : Sections) : Option Json :=
  (Table.get? name sections).bind (Section.get? inside)

theorem value?_eq_some_iff (name inside : Text) (value : Json) :
    sections.value? name inside = some value
      ↔ ∃ values, Table.get? name sections = some values
        ∧ Section.get? inside values = some value :=
  Option.bind_eq_some_iff

theorem Storable.of_value? (h : sections.Storable) {name inside : Text} {value : Json}
    (hvalue : sections.value? name inside = some value) : value.Storable := by
  rcases (value?_eq_some_iff name inside value).mp hvalue with ⟨values, hvalues, hinside⟩
  rcases h.of_get? hvalues with ⟨fields, rfl, _, hfields⟩
  rw [Section.get?_ofFields] at hinside
  exact (hfields.of_get? hinside).2

/-- What is found after a value was put in a section. -/
theorem Storable.value?_put (h : sections.Storable) {name inside : Text} {values : Section}
    (hvalues : Table.get? name sections = some values) (value : Json) (other otherInside : Text) :
    value? other otherInside (Table.put name (Section.put inside value values) sections)
      = if name = other ∧ inside = otherInside then some value
        else sections.value? other otherInside := by
  rcases h.of_get? hvalues with ⟨fields, rfl, _, _⟩
  rw [value?, value?, Table.get?_put, Section.put_ofFields]
  by_cases hname : name = other
  · rw [if_pos hname, Option.bind_some, Section.get?_ofFields, Table.get?_put, ← hname, hvalues,
      Option.bind_some, Section.get?_ofFields]
    simp only [true_and]
  · rw [if_neg hname, if_neg (mt And.left hname)]

/-- A section is found in all sections with one sorted form, and has one sorted form
    there. -/
theorem Storable.get?_of_sorted (hsections : sections.Storable) {others : Sections}
    (hothers : others.Storable) (h : (toJson others).sorted = (toJson sections).sorted)
    {name : Text} {fields : Table Json}
    (hvalues : Table.get? name sections = some (.ofFields fields)) :
    ∃ otherFields, Table.get? name others = some (.ofFields otherFields)
      ∧ (Json.obj otherFields).Storable
      ∧ (Json.obj otherFields).sorted = (Json.obj fields).sorted := by
  have hfound := (Json.sorted_obj_eq_iff hothers.nodup hsections.nodup).mp h name
  rw [get?_fields, get?_fields, hvalues, Option.map_some, Option.map_some, Option.map_map,
    Option.map_eq_some_iff] at hfound
  rcases hfound with ⟨values, hother, hsorted⟩
  rcases hothers.of_get? hother with ⟨otherFields, rfl, _, hotherFields⟩
  rw [Function.comp_apply, Section.toJson_ofFields, Section.toJson_ofFields] at hsorted
  exact ⟨otherFields, hother, hotherFields, hsorted⟩

theorem Storable.get?_none_of_sorted (hsections : sections.Storable) {others : Sections}
    (hothers : others.Storable) (h : (toJson others).sorted = (toJson sections).sorted)
    {name : Text} (hvalues : Table.get? name sections = none) : Table.get? name others = none := by
  have hfound := (Json.sorted_obj_eq_iff hothers.nodup hsections.nodup).mp h name
  rw [get?_fields, get?_fields, hvalues, Option.map_none, Option.map_none,
    Option.map_eq_none_iff, Option.map_eq_none_iff] at hfound
  exact hfound

/-- Sections with one sorted form have values with one sorted form. -/
theorem value?_of_sorted (hsections : sections.Storable) {others : Sections}
    (hothers : others.Storable) (h : (toJson sections).sorted = (toJson others).sorted)
    (name inside : Text) :
    (sections.value? name inside).map Json.sorted
      = (others.value? name inside).map Json.sorted := by
  rw [value?, value?]
  cases hget : Table.get? name sections with
  | none => rw [hsections.get?_none_of_sorted hothers h.symm hget]
  | some values =>
      rcases hsections.of_get? hget with ⟨fields, rfl, _, hfields⟩
      rcases hsections.get?_of_sorted hothers h.symm hget with ⟨otherFields, hother,
        hotherFields, hsorted⟩
      rw [hother, Option.bind_some, Option.bind_some, Section.get?_ofFields, Section.get?_ofFields]
      exact (Json.sorted_obj_eq_iff hfields.nodup hotherFields.nodup).mp hsorted.symm inside

end Sections

/-! ## What is read from the file -/

namespace SettingsStore

variable {fields stored : Table Json}

/-- The object in a file is the one that is read from its text. -/
theorem parse_eq_ok_iff (bytes : Bytes) : parse bytes = .ok stored
    ↔ Utf8.fault? bytes = none
      ∧ Json.read (Text.normalizeBreaks (Utf8.decodeLossy bytes)) = .ok (.obj stored) := by
  unfold parse
  cases Utf8.fault? bytes with
  | some fault =>
      exact iff_of_false (by simp only [reduceCtorEq, not_false_eq_true])
        fun h => absurd h.1 (Option.some_ne_none fault)
  | none =>
      rw [and_iff_right rfl]
      simp only
      cases Json.read (Text.normalizeBreaks (Utf8.decodeLossy bytes)) with
      | error stop =>
          exact iff_of_false (by simp only [reduceCtorEq, not_false_eq_true])
            (by simp only [reduceCtorEq, not_false_eq_true])
      | ok value =>
          cases value with
          | obj fields => simp only [Except.ok.injEq, Json.obj.injEq]
          | null | bool _ | int _ | float _ | str _ | arr _ =>
              simp only [Except.ok.injEq, reduceCtorEq]

/-- A text without other line ends than feeds is read as it was written. -/
theorem parse_encode_eq_ok_iff {t : Text} (h : '\r' ∉ t) :
    parse (Utf8.encode t) = .ok stored ↔ Json.read t = .ok (.obj stored) := by
  rw [parse_eq_ok_iff, Utf8.decodeLossy_encode, Text.normalizeBreaks_eq_self t h,
    and_iff_right (Utf8.fault?_encode t)]

/-- Sections that were written are read, with all fields in the order of their
    keys. -/
theorem parse_print {sections : Sections} (h : sections.Storable)
    (hdepth : (Sections.toJson sections).depth ≤ Json.maxNesting) :
    ∃ stored, parse (Utf8.encode (Sections.toJson sections).print) = .ok stored
      ∧ Json.obj stored = (Sections.toJson sections).sorted := by
  refine ⟨Json.sortByKey (sections.fields.map Json.sortedField), ?_, (Json.sorted_obj _).symm⟩
  rw [parse_encode_eq_ok_iff (Json.return_not_mem_print h.value.faithful), ← Json.sorted_obj]
  exact Json.read_print h.value.regular h.value.faithful hdepth

/-- Nothing else is read, also when the sections are nested too deep. -/
theorem eq_sorted_of_parse {sections : Sections} (h : sections.Storable)
    (hparse : parse (Utf8.encode (Sections.toJson sections).print) = .ok stored) :
    Json.obj stored = (Sections.toJson sections).sorted := by
  rw [parse_encode_eq_ok_iff (Json.return_not_mem_print h.value.faithful)] at hparse
  exact Json.eq_sorted_of_read_print h.value.regular h.value.faithful hparse

/-! ## What is taken over -/

theorem get?_withDefaults (defaults : Sections) (stored : Table Json) (name : Text) :
    Table.get? name (withDefaults defaults stored)
      = (Table.get? name defaults).map fun values => fill values (Table.get? name stored) :=
  Table.get?_map (fun name values => fill values (Table.get? name stored)) defaults name

theorem names_withDefaults (defaults : Sections) (stored : Table Json) :
    (withDefaults defaults stored).map (·.1) = defaults.map (·.1) := by
  rw [withDefaults, List.map_map]
  rfl

theorem withDefaults_covers (defaults : Sections) (stored : Table Json) :
    (withDefaults defaults stored).Covers defaults where
  names := names_withDefaults defaults stored
  values := by
    intro name values base hvalues hbase inside hinside
    rw [get?_withDefaults, hbase, Option.map_some] at hvalues
    rw [← Option.some.inj hvalues]
    exact has_fill base inside hinside _

theorem fill_ofFields {base : Table Json} (hbase : (Json.obj base).Storable) {found : Option Json}
    (hfound : ∀ value ∈ found, value.Storable) :
    ∃ fields, fill (.ofFields base) found = .ofFields fields ∧ (Json.obj fields).Storable := by
  unfold fill
  split
  · next fields =>
      exact ⟨Table.update base fields, Section.update_ofFields base fields,
        Json.Storable.update hbase (hfound _ rfl)⟩
  · exact ⟨base, rfl, hbase⟩

/-- What is taken over from a file comes back from one. -/
theorem withDefaults_storable {defaults : Sections} (hdefaults : defaults.Storable)
    (hstored : (Json.obj stored).Storable) : (withDefaults defaults stored).Storable := by
  have hfill : ∀ entry ∈ withDefaults defaults stored, entry.1.Separate
      ∧ ∃ fields, entry.2 = .ofFields fields ∧ (Json.obj fields).Storable := by
    intro entry hmem
    rcases List.mem_map.mp hmem with ⟨⟨name, values⟩, hentry, rfl⟩
    rcases hdefaults.texts _ hentry with ⟨base, hbase⟩
    have hinside := ((Json.storable_obj_iff _).mp hdefaults.value).2 _
      (List.mem_map.mpr ⟨_, hentry, rfl⟩)
    simp only at hbase hinside
    rw [hbase, Section.toJson_ofFields] at hinside
    rw [hbase]
    exact ⟨hinside.1, fill_ofFields hinside.2 fun _ hfound => (hstored.of_get? hfound).2⟩
  refine ⟨fun entry hmem => ?_, (Json.storable_obj_iff _).mpr ⟨?_, fun field hmem => ?_⟩⟩
  · rcases (hfill entry hmem).2 with ⟨fields, hfields, _⟩
    exact ⟨fields, hfields⟩
  · rw [← Sections.fields, Sections.keys_fields, names_withDefaults, ← Sections.keys_fields]
    exact hdefaults.nodup
  · rcases List.mem_map.mp hmem with ⟨entry, hentry, rfl⟩
    rcases hfill entry hentry with ⟨hname, fields, hfields, hvalue⟩
    refine ⟨hname, ?_⟩
    simp only
    rw [hfields, Section.toJson_ofFields]
    exact hvalue

/-- A section that is put over its defaults is the same up to the order of fields,
    when it has a value under every name of theirs. -/
theorem update_sorted {base fields written : Table Json} (hbase : (Json.obj base).Storable)
    (hfields : (Json.obj fields).Storable) (hwritten : (Json.obj written).Storable)
    (hcovers : ∀ key, Table.get? key fields = none → Table.get? key base = none)
    (h : (Json.obj written).sorted = (Json.obj fields).sorted) :
    (Json.obj (Table.update base written)).sorted = (Json.obj fields).sorted := by
  have hsame := (Json.sorted_obj_eq_iff hwritten.nodup hfields.nodup).mp h
  refine (Json.sorted_obj_eq_iff (Table.nodup_update hbase.nodup written) hfields.nodup).mpr
    fun key => ?_
  rw [Table.get?_update hwritten.nodup, ← hsame key]
  cases hget : Table.get? key written with
  | some value => rfl
  | none =>
      have hnone := hsame key
      rw [hget, Option.map_none, eq_comm, Option.map_eq_none_iff] at hnone
      rw [hcovers key hnone]
      rfl

/-- Sections that are taken over are the same up to the order of fields. -/
theorem withDefaults_sorted {defaults sections : Sections} (hdefaults : defaults.Storable)
    (hsections : sections.Storable) (hcovers : sections.Covers defaults)
    (hstored : (Json.obj stored).Storable)
    (h : (Json.obj stored).sorted = (Sections.toJson sections).sorted) :
    (Sections.toJson (withDefaults defaults stored)).sorted
      = (Sections.toJson sections).sorted := by
  refine (Json.sorted_obj_eq_iff (withDefaults_storable hdefaults hstored).nodup
    hsections.nodup).mpr fun name => ?_
  have hfound := (Json.sorted_obj_eq_iff hstored.nodup hsections.nodup).mp h name
  rw [Sections.get?_fields] at hfound ⊢
  rw [Sections.get?_fields, get?_withDefaults]
  cases hget : Table.get? name sections with
  | none =>
      have hnone : Table.get? name defaults = none := by
        rw [Table.get?_eq_none_iff] at hget ⊢
        rwa [← hcovers.names]
      rw [hnone]
      rfl
  | some values =>
      have hkey : name ∈ defaults.map (·.1) := by
        rw [← hcovers.names]
        exact List.mem_map_of_mem (Table.mem_of_get? name values sections hget)
      rcases Table.get?_of_mem_keys hkey with ⟨baseValues, hbase⟩
      have hinside := hcovers.values hget hbase
      rcases hsections.of_get? hget with ⟨fields, rfl, _, hfields⟩
      rcases hdefaults.of_get? hbase with ⟨base, rfl, _, hbaseFields⟩
      rw [hget, Option.map_some, Option.map_some, Section.toJson_ofFields,
        Option.map_eq_some_iff] at hfound
      rcases hfound with ⟨value, hvalue, hsorted⟩
      rcases Json.exists_obj_of_sorted hsorted with ⟨written, rfl⟩
      rw [hbase, hvalue, Option.map_some, Option.map_some, Option.map_some, Option.map_some, fill,
        Section.update_ofFields, Section.toJson_ofFields, Section.toJson_ofFields]
      refine congrArg some (update_sorted hbaseFields hfields (hstored.of_get? hvalue).2
        (fun key hnone => Option.not_isSome_iff_eq_none.mp fun hsome => ?_) hsorted)
      have hthere := (Section.has_ofFields fields key).mp
        (hinside _ ((Section.has_ofFields base key).mpr hsome))
      rw [hnone] at hthere
      exact absurd hthere Bool.false_ne_true

/-! ## How deep values are nested -/

theorem fits_iff (defaults : Sections) (stored : Table Json) :
    fits defaults stored = true ↔ defaults.Shallow
      ∧ ∀ name ∈ defaults.map (·.1), storedFits (Table.get? name stored) = true := by
  rw [fits, List.all_eq_true, Sections.Shallow, List.forall_mem_map, ← forall₂_and]
  refine forall₂_congr fun entry _ => ?_
  rw [Bool.and_eq_true, decide_eq_true_eq]

/-- What is taken over is nested no deeper than what it is taken from. -/
theorem withDefaults_shallow {defaults : Sections} {stored : Table Json}
    (hdefaults : defaults.Storable) (h : fits defaults stored = true) :
    (withDefaults defaults stored).Shallow := by
  rcases (fits_iff defaults stored).mp h with ⟨hshallow, hstored⟩
  intro entry hmem
  rcases List.mem_map.mp hmem with ⟨⟨name, values⟩, hentry, rfl⟩
  have hvalues := hshallow _ hentry
  have hfound := hstored name (List.mem_map_of_mem hentry)
  simp only at hvalues ⊢
  unfold fill
  split
  · next fields heq =>
      rw [heq, storedFits, decide_eq_true_eq] at hfound
      rcases hdefaults.texts _ hentry with ⟨base, hbase⟩
      simp only at hbase
      rw [hbase, Section.toJson_ofFields, maxDepth, Json.depth_obj_le_iff] at hvalues
      rw [maxDepth, Json.depth_obj_le_iff] at hfound
      rw [hbase, Section.update_ofFields, Section.toJson_ofFields, maxDepth,
        Json.depth_obj_le_iff]
      exact fun field hfield => (Table.mem_of_mem_update hfield).elim (hvalues field) (hfound field)
  · exact hvalues

/-- Sections that were written are taken over just when they are nested no deeper than
    is allowed. -/
theorem fits_iff_of_sorted {defaults sections : Sections} (hdefaults : defaults.Shallow)
    (hsections : sections.Storable) (hnames : sections.map (·.1) = defaults.map (·.1))
    (hstored : (Json.obj stored).Storable)
    (h : (Json.obj stored).sorted = (Sections.toJson sections).sorted) :
    fits defaults stored = true ↔ sections.Shallow := by
  -- Every section is there as an object of the same depth, and there is no other.
  have hfits : ∀ entry ∈ sections, storedFits (Table.get? entry.1 stored) = true
      ↔ (Section.toJson entry.2).depth ≤ maxDepth := by
    intro entry hmem
    have hfound := (Json.sorted_obj_eq_iff hstored.nodup hsections.nodup).mp h entry.1
    rw [Sections.get?_fields, (Table.get?_eq_some_iff hsections.nodup_names _ _).mpr hmem,
      Option.map_some, Option.map_some, Option.map_eq_some_iff] at hfound
    rcases hfound with ⟨value, hvalue, hsorted⟩
    rcases hsections.texts entry hmem with ⟨fields, hfields⟩
    rw [hfields, Section.toJson_ofFields] at hsorted ⊢
    rcases Json.exists_obj_of_sorted hsorted with ⟨written, rfl⟩
    rw [hvalue, storedFits, decide_eq_true_eq, ← Json.depth_sorted_le_iff, hsorted,
      Json.depth_sorted_le_iff]
  rw [fits_iff, and_iff_right hdefaults, ← hnames, List.forall_mem_map]
  exact forall₂_congr hfits

end SettingsStore

end QueryDesk
