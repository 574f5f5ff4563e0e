import QueryDesk.Proofs.Settings.Course
import QueryDesk.Proofs.Settings.Names

/-!
# What reading leaves of the settings

A store that is read has the sections of its defaults and no others. What the file has
for a section is put over the defaults, name by name, if it is an object; if the file is
missing or makes no sense, or has something else there, the defaults are all there is.
What is wrong with the file is kept, and settings without a file count as changed.

Reading fails in three ways only, and then the settings stay what they were: the path
cannot be asked about, lists and objects in the file are nested deeper than the reader
goes, or they are read but cannot be copied into the settings. The last limit is half
the other one, since copying takes two calls a level.

Reading gives a store back and no host, so no file changes.

## Main definitions

* `SettingsStore.stored?`: What the file has under a name of a section.
* `SettingsStore.Shallow`: Nothing in the file or the defaults is nested too deep.
* `SettingsStore.Filled`: The settings are what the file and the defaults make.

## Theorems

* `find?_fill`: A value in the file comes before a default.
* `load_shallow`: What reading comes to when nothing is nested too deep.
* `load_iff_filled`: When reading comes to an end, and what it leaves.
* `load_deep_fails`: A file that is read, and not taken over.
-/

namespace QueryDesk

namespace SettingsStore

variable {store : SettingsStore} {host : Host}

/-! ## Values by their names -/

/-- What there is under a name of something that a file has for a section: nothing,
    unless it is an object with a value under the name. -/
def inside? (name : SettingName) : Option Json → Option Json
  | some (.obj fields) => Section.find? name (.ofFields fields)
  | _ => none

/-- What the file has under a name of a section: nothing, unless it holds an object. -/
def stored? (store : SettingsStore) (host : Host) (sectionName : Text) (name : SettingName) :
    Option Json :=
  match store.readFile host with
  | .error _ => none
  | .ok stored => inside? name (Table.get? sectionName stored)

/-- A value in the file comes before a default. -/
theorem find?_fill {found : Option Json} (hregular : ∀ value, found = some value → value.Regular)
    (base : Section) (name : SettingName) :
    Section.find? name (fill base found) = (inside? name found).or (Section.find? name base) := by
  cases found with
  | none => rfl
  | some value =>
      cases hregular value rfl with
      | obj fields keys _ => exact Section.find?_update_ofFields keys base name
      | null | bool | int | float | str | arr => rfl

/-! ## Reading -/

/-- Nothing in the file or the defaults is nested deeper than can be read and taken
    over. -/
structure Shallow (store : SettingsStore) (host : Host) : Prop where
  read : ∀ problem, store.readFile host = .error problem → problem.isTooDeep = false
  defaults : store.defaults.Shallow
  taken : ∀ stored, store.readFile host = .ok stored →
    ∀ sectionName ∈ store.defaults.map (·.1), storedFits (Table.get? sectionName stored) = true

/-- The settings are what the file and the defaults make, as they are if there is a file
    and as they are if there is none. -/
structure Filled (store : SettingsStore) (host : Host) (there : Bool)
    (filled : SettingsStore) : Prop where
  same : filled = { store with
    data := filled.data, dirty := filled.dirty, loadError := filled.loadError }
  sections : filled.data.map (·.1) = store.defaults.map (·.1)
  values : ∀ sectionName base, Table.get? sectionName store.defaults = some base →
    ∃ values, Table.get? sectionName filled.data = some values
      ∧ ∀ name, Section.find? name values
        = (store.stored? host sectionName name).or (Section.find? name base)
  dirty : filled.dirty = !there
  loadError : ∀ problem, filled.loadError = some problem
    ↔ there = true ∧ store.readFile host = .error problem

theorem fits_of_shallow (h : store.Shallow host) {stored : Table Json}
    (hread : store.readFile host = .ok stored) : fits store.defaults stored = true :=
  (fits_iff store.defaults stored).mpr ⟨h.defaults, h.taken stored hread⟩

theorem fits_nil_iff (defaults : Sections) : fits defaults [] = true ↔ defaults.Shallow := by
  rw [fits_iff]
  exact and_iff_left fun _ _ => rfl

/-- Defaults with what a file has taken over. -/
theorem values_of_readFile {stored : Table Json} (hread : store.readFile host = .ok stored)
    {sectionName : Text} {base : Section}
    (hbase : Table.get? sectionName store.defaults = some base) :
    ∃ values, Table.get? sectionName (withDefaults store.defaults stored) = some values
      ∧ ∀ name, Section.find? name values
        = (store.stored? host sectionName name).or (Section.find? name base) := by
  refine ⟨_, by rw [get?_withDefaults, hbase, Option.map_some], fun name => ?_⟩
  have hregular : ∀ value, Table.get? sectionName stored = some value → value.Regular := by
    intro value hvalue
    cases regular_of_readFile hread with
    | obj _ _ hinside => exact hinside _ (Table.mem_of_get? sectionName value stored hvalue)
  rw [find?_fill hregular, stored?, hread]

/-- Defaults with nothing taken over. -/
theorem values_of_error {problem : LoadError} (hread : store.readFile host = .error problem)
    {sectionName : Text} {base : Section}
    (hbase : Table.get? sectionName store.defaults = some base) :
    ∃ values, Table.get? sectionName (withDefaults store.defaults []) = some values
      ∧ ∀ name, Section.find? name values
        = (store.stored? host sectionName name).or (Section.find? name base) := by
  refine ⟨base, by rw [get?_withDefaults, hbase, Option.map_some]; rfl, fun name => ?_⟩
  rw [stored?, hread, Option.none_or]

/-- What reading comes to when the path can be asked about and nothing is nested too
    deep. -/
theorem load_shallow (hpersistent : store.persistent = true) {there : Bool}
    (hthere : host.test (fun _ => true) store.path.text = .ok there) (h : store.Shallow host) :
    ∃ filled, load store host = (filled, .ok ()) ∧ store.Filled host there filled := by
  have hnothing : fits store.defaults [] = true := (fits_nil_iff _).mpr h.defaults
  cases there with
  | false =>
      rcases readFile_error_of_test store host hthere with ⟨problem, hread⟩
      refine ⟨_, (Finds.missing hpersistent hthere).load_eq.trans
        (refill_fits { store with loadError := none } [] true hnothing), ?_⟩
      exact {
        same := rfl
        sections := names_withDefaults store.defaults []
        values := fun _ _ hbase => values_of_error hread hbase
        dirty := rfl
        loadError := fun _ => iff_of_false (Option.some_ne_none _).symm
          fun hthere => Bool.false_ne_true hthere.1 }
  | true =>
      cases hread : store.readFile host with
      | error problem =>
          have hfinds := Finds.senseless hpersistent hthere hread (h.read problem hread)
          refine ⟨_, hfinds.load_eq.trans
            (refill_fits { store with loadError := some problem } [] false hnothing), ?_⟩
          exact {
            same := rfl
            sections := names_withDefaults store.defaults []
            values := fun _ _ hbase => values_of_error hread hbase
            dirty := rfl
            loadError := fun other => by
              rw [hread, and_iff_right rfl, Option.some.injEq, Except.error.injEq] }
      | ok stored =>
          have hfits := fits_of_shallow h hread
          refine ⟨_, (Finds.object hpersistent hthere hread).load_eq.trans
            (refill_fits { store with loadError := none } stored false hfits), ?_⟩
          exact {
            same := rfl
            sections := names_withDefaults store.defaults stored
            values := fun _ _ hbase => values_of_readFile hread hbase
            dirty := rfl
            loadError := fun other => by
              rw [hread]
              exact iff_of_false (Option.some_ne_none _).symm
                (by simp only [reduceCtorEq, and_false, not_false_eq_true]) }

-- A file that is not there holds nothing that could be nested.
theorem not_tooDeep_of_missing (hthere : host.test (fun _ => true) store.path.text = .ok false)
    {problem : LoadError} (hread : store.readFile host = .error problem) :
    problem.isTooDeep = false := by
  rcases readFile_error_of_test store host hthere with ⟨fault, hfault⟩
  rw [← Except.error.inj (hfault.symm.trans hread)]
  rfl

/-- Where reading comes to an end, the path could be asked about. -/
theorem asked_of_load (hpersistent : store.persistent = true) {filled : SettingsStore}
    (h : load store host = (filled, .ok ())) :
    ∃ there, host.test (fun _ => true) store.path.text = .ok there := by
  cases hthere : host.test (fun _ => true) store.path.text with
  | ok there => exact ⟨there, rfl⟩
  | error failure =>
      rw [(Finds.unasked hpersistent hthere).load_eq] at h
      exact absurd (Prod.mk.inj h).2 (by simp only [reduceCtorEq, not_false_eq_true])

/-- Where reading comes to an end, nothing is nested too deep. -/
theorem shallow_of_load (hpersistent : store.persistent = true) {filled : SettingsStore}
    (h : load store host = (filled, .ok ())) : store.Shallow host := by
  rcases asked_of_load hpersistent h with ⟨there, hthere⟩
  rcases load_eq_ok h with ⟨stored, _, _, hgives, hfits, _⟩
  rw [fits_iff] at hfits
  refine ⟨fun problem hread => ?_, hfits.1, fun other hother => ?_⟩
  · cases there with
    | false => exact not_tooDeep_of_missing hthere hread
    | true =>
        by_contra hdeep
        rw [(Finds.deep hpersistent hthere hread (Bool.eq_true_of_not_eq_false hdeep)).load_eq] at h
        exact absurd (Prod.mk.inj h).2 (by simp only [reduceCtorEq, not_false_eq_true])
  · rw [← hgives.unique hpersistent hother]
    exact hfits.2

/-- Reading settings that have a file comes to an end just when the path can be asked
    about and nothing is nested too deep, and then the settings are what the file and
    the defaults make. When it fails, they stay what they were. -/
theorem load_iff_filled (store : SettingsStore) (host : Host)
    (hpersistent : store.persistent = true) :
    ((load store host).2 = .ok ()
        ↔ (∃ there, host.test (fun _ => true) store.path.text = .ok there)
          ∧ store.Shallow host)
      ∧ ((load store host).2 = .ok () → ∃ there,
          host.test (fun _ => true) store.path.text = .ok there
            ∧ store.Filled host there (load store host).1)
      ∧ ((load store host).2 ≠ .ok () →
          ∃ loadError, (load store host).1 = { store with loadError }) := by
  rcases hload : load store host with ⟨left, outcome⟩
  refine ⟨⟨fun hok => ?_, fun ⟨⟨there, hthere⟩, hshallow⟩ => ?_⟩, fun hok => ?_, fun hfailed => ?_⟩
  · rw [show outcome = .ok () from hok] at hload
    exact ⟨asked_of_load hpersistent hload, shallow_of_load hpersistent hload⟩
  · rcases load_shallow hpersistent hthere hshallow with ⟨filled, hfilled, _⟩
    exact congrArg Prod.snd (hload.symm.trans hfilled)
  · rw [show outcome = .ok () from hok] at hload
    rcases asked_of_load hpersistent hload with ⟨there, hthere⟩
    rcases load_shallow hpersistent hthere (shallow_of_load hpersistent hload) with
      ⟨filled, hfilled, hresult⟩
    rw [(Prod.mk.inj (hload.symm.trans hfilled)).1]
    exact ⟨there, hthere, hresult⟩
  · cases outcome with
    | ok _ => exact absurd rfl hfailed
    | error failure => exact load_failed hload

/-- A file has one more value for the section there is a default for: the default is
    what it is, and the value is beside it. -/
theorem load_iff_filled_beside :
    let host := Host.holding "s.json" (Utf8.encode "\x7b\"s\": \x7b\"b\": null\x7d\x7d")
    oneFresh.persistent = true ∧ (load oneFresh host).2 = .ok ()
      ∧ (load oneFresh host).1.dirty = false
      ∧ ∃ values, Table.get? "s" (load oneFresh host).1.data = some values
        ∧ Section.get? "a" values = some (.int 1) ∧ Section.get? "b" values = some .null := by
  intro host
  have hread : oneFresh.readFile host = .ok [("s", .obj [("b", .null)])] := by cbv
  have hthere : host.test (fun _ => true) oneFresh.path.text = .ok true := by cbv
  have hok : (load oneFresh host).2 = .ok () := by cbv
  rcases (load_iff_filled oneFresh host rfl).2.1 hok with ⟨there, hasked, hfilled⟩
  rcases hfilled.values "s" _ rfl with ⟨values, hvalues, hfind⟩
  refine ⟨rfl, hok, ?_, values, hvalues, ?_, ?_⟩
  · rw [hfilled.dirty, ← Except.ok.inj (hthere.symm.trans hasked)]
    rfl
  · rw [Section.get?, hfind, stored?, hread]
    rfl
  · rw [Section.get?, hfind, stored?, hread]
    rfl

/-- A file that is there, and holds an object that is read, is not taken over when lists
    in it are nested five hundred deep. -/
theorem load_deep_fails : ∃ host stored, oneFresh.readFile host = .ok stored
    ∧ (Json.obj stored).depth = 502 ∧ load oneFresh host = (oneFresh, .error .tooDeep) := by
  have hsection : (Json.obj [("a", nested 500)]).depth = 501 := by
    rw [Json.depth, Json.fieldsDepth, Json.fieldsDepth, depth_nested, Nat.max_zero]
  have hdata : (Sections.toJson (oneList [nested 499])).depth = 502 := by
    rw [Sections.toJson, Json.depth]
    exact congrArg (· + 1) ((Nat.max_zero _).trans hsection)
  rcases load_of_deep (nested_storable 500) (by rw [← nested, hsection]; decide)
    (by rw [← nested, hsection]; decide) with ⟨stored, hread, hstored, hload⟩
  refine ⟨_, stored, hread, ?_, hload⟩
  -- Sorting leaves the depth.
  rw [hstored, ← hdata]
  exact Nat.le_antisymm ((Json.depth_sorted_le_iff _ _).mpr (Nat.le_refl _))
    ((Json.depth_sorted_le_iff _ _).mp (Nat.le_refl _))

end SettingsStore

end QueryDesk
