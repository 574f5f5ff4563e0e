import Mathlib
import QueryDesk.Proofs.Desk.Loaded
import QueryDesk.Proofs.Files.Kind
import QueryDesk.Settings.Desk

/-!
# Settings that can be loaded

Whatever is in the settings file, it is either taken over or given up for the
defaults, and then every value that the queries need is made fit for use. The one
thing that can go wrong there is a number that is infinite. A file can hold one,
as a word or as a numeral that is too large, and two of the values are brought
within bounds as integers. A value that is no number gives way to its default,
but an infinite number has no integer and ends the loading instead.

Loading begins with the defaults and puts what the file has over them, so every
name of theirs has a value afterwards, also when the loading failed.

## Main definitions

* `Section.Has`: A section has a value under a name.
* `SettingsStore.Gives`: What the file has to take over, nothing when it cannot be
  read.
* `SettingsStore.Finds`: What looking at the file comes to.
* `Settings.Overflows`: A file with an infinite number where an integer is wanted.

## Theorems

* `Section.Has.update`: Values that are taken over leave every name its value.
* `SettingsStore.load_filled`, `SettingsStore.load_eq_ok`: What reading the file
  leaves.
* `Settings.normalized_cases`: Values can be made fit unless one of two is
  infinite.
* `Settings.load_reported`: Settings whose file makes no sense are the defaults.
* `Settings.load_ok_iff`: Settings can be loaded just when the file has no such
  number.
* `Settings.infinite_limit_fails`: A file with an infinite limit.
-/

namespace QueryDesk

namespace Section

/-- The section has a value under the name. -/
def Has (values : Section) (name : SettingName) : Prop :=
  ∃ entry ∈ values, entry.1.same name = true

theorem has_iff (values : Section) (name : SettingName) :
    values.Has name ↔ (find? name values).isSome = true := by
  induction values with
  | nil => exact iff_of_false (fun ⟨_, hmem, _⟩ => absurd hmem List.not_mem_nil) Bool.false_ne_true
  | cons entry rest ih =>
      rcases entry with ⟨other, value⟩
      rw [find?]
      by_cases hsame : other.same name = true
      · rw [if_pos hsame]
        exact iff_of_true ⟨(other, value), List.mem_cons_self, hsame⟩ rfl
      · rw [if_neg hsame, ← ih]
        constructor
        · rintro ⟨entry, hmem, hentry⟩
          rcases List.mem_cons.mp hmem with rfl | hmem
          · exact absurd hentry hsame
          · exact ⟨entry, hmem, hentry⟩
        · rintro ⟨entry, hmem, hentry⟩
          exact ⟨entry, List.mem_cons_of_mem _ hmem, hentry⟩

theorem has_of_mem {values : Section} {name : SettingName} (htext : name.isText = true)
    (hmem : name ∈ values.map (·.1)) : values.Has name := by
  rcases List.mem_map.mp hmem with ⟨entry, hentry, rfl⟩
  refine ⟨entry, hentry, ?_⟩
  rcases entry with ⟨name, value⟩
  cases name with
  | text t => exact beq_self_eq_true t
  | null | bool _ | int _ | float _ => exact absurd htext Bool.false_ne_true

-- A value that is put in takes the place of another one, or comes after all.
theorem Has.put {values : Section} {name : SettingName} (h : values.Has name)
    (other : SettingName) (value : Json) : Has (Section.put other value values) name := by
  induction values with
  | nil =>
      rcases h with ⟨_, hmem, _⟩
      exact absurd hmem List.not_mem_nil
  | cons entry rest ih =>
      rcases entry with ⟨first, old⟩
      rcases h with ⟨entry, hmem, hsame⟩
      rw [Section.put]
      split
      · rcases List.mem_cons.mp hmem with rfl | hmem
        · exact ⟨(first, value), List.mem_cons_self, hsame⟩
        · exact ⟨entry, List.mem_cons_of_mem _ hmem, hsame⟩
      · rcases List.mem_cons.mp hmem with rfl | hmem
        · exact ⟨(first, old), List.mem_cons_self, hsame⟩
        · rcases ih ⟨entry, hmem, hsame⟩ with ⟨kept, hkept, hname⟩
          exact ⟨kept, List.mem_cons_of_mem _ hkept, hname⟩

/-- Values that are taken over leave every name its value. -/
theorem Has.update {values : Section} {name : SettingName} (h : values.Has name)
    (other : Section) : Has (Section.update values other) name := by
  induction other generalizing values with
  | nil => exact h
  | cons entry rest ih => exact ih (h.put entry.1 entry.2)

end Section

namespace SettingsStore

theorem has_fill (defaults : Section) (name : SettingName) (h : defaults.Has name)
    (stored : Option Json) : (fill defaults stored).Has name := by
  unfold fill
  split
  · exact h.update _
  · exact h

-- Where there is nothing, nothing can be read.
theorem readFile_error_of_test (store : SettingsStore) (host : Host)
    (h : host.test (fun _ => true) store.path.text = .ok false) :
    ∃ fault, store.readFile host = .error (.file fault) := by
  unfold Host.test FileTree.test at h
  unfold readFile FileTree.openBytes
  cases hfind : host.files.find host.workDir store.path.text with
  | error fault => exact ⟨fault, rfl⟩
  | ok found =>
      rw [hfind] at h
      exact absurd h (by simp only [Except.ok.injEq, reduceCtorEq, not_false_eq_true])

/-- What the file has to take over: the object in it, or nothing when the settings
    have no file or it holds no object. -/
def Gives (store : SettingsStore) (host : Host) (stored : Table Json) : Prop :=
  (store.persistent = true ∧ store.readFile host = .ok stored)
    ∨ (stored = [] ∧ ∀ other, store.persistent = true → store.readFile host ≠ .ok other)

theorem Gives.unique {store : SettingsStore} {host : Host} {stored other : Table Json}
    (h : store.Gives host stored) (hpersistent : store.persistent = true)
    (hother : store.readFile host = .ok other) : stored = other := by
  rcases h with ⟨_, hread⟩ | ⟨_, hnone⟩
  · rw [hread] at hother
    exact Except.ok.inj hother
  · exact absurd hother (hnone other hpersistent)

theorem refill_fits (store : SettingsStore) (stored : Table Json) (dirty : Bool)
    (h : fits store.defaults stored = true) :
    store.refill stored dirty
      = ({ store with data := withDefaults store.defaults stored, dirty }, .ok ()) := by
  rw [refill, if_pos h]

theorem refill_loadError (store : SettingsStore) (stored : Table Json) (dirty : Bool) :
    (store.refill stored dirty).1.loadError = store.loadError := by
  unfold refill
  split
  · rfl
  · rfl

/-- What looking at the file comes to: a failure, or what there is to take over and
    whether the settings count as changed. Besides, what is wrong with the file. -/
inductive Finds (store : SettingsStore) (host : Host) :
    Option LoadError → Except Failure (Table Json × Bool) → Prop
  /-- The settings are not kept in a file. -/
  | transient (hpersistent : store.persistent = false) : Finds store host none (.ok ([], false))
  /-- The path is too long to be asked about. -/
  | unasked {failure : Failure} (hpersistent : store.persistent = true)
      (hthere : host.test (fun _ => true) store.path.text = .error failure) :
      Finds store host none (.error failure)
  | missing (hpersistent : store.persistent = true)
      (hthere : host.test (fun _ => true) store.path.text = .ok false) :
      Finds store host none (.ok ([], true))
  | deep {problem : LoadError} (hpersistent : store.persistent = true)
      (hthere : host.test (fun _ => true) store.path.text = .ok true)
      (hread : store.readFile host = .error problem) (hdeep : problem.isTooDeep = true) :
      Finds store host none (.error .tooDeep)
  | senseless {problem : LoadError} (hpersistent : store.persistent = true)
      (hthere : host.test (fun _ => true) store.path.text = .ok true)
      (hread : store.readFile host = .error problem) (hdeep : problem.isTooDeep = false) :
      Finds store host (some problem) (.ok ([], false))
  | object {stored : Table Json} (hpersistent : store.persistent = true)
      (hthere : host.test (fun _ => true) store.path.text = .ok true)
      (hread : store.readFile host = .ok stored) : Finds store host none (.ok (stored, false))

theorem exists_finds (store : SettingsStore) (host : Host) :
    ∃ loadError found, store.Finds host loadError found := by
  cases hpersistent : store.persistent with
  | false => exact ⟨_, _, .transient hpersistent⟩
  | true =>
      cases hthere : host.test (fun _ => true) store.path.text with
      | error failure => exact ⟨_, _, .unasked hpersistent hthere⟩
      | ok there =>
          cases there with
          | false => exact ⟨_, _, .missing hpersistent hthere⟩
          | true =>
              cases hread : store.readFile host with
              | ok stored => exact ⟨_, _, .object hpersistent hthere hread⟩
              | error problem =>
                  cases hdeep : problem.isTooDeep with
                  | true => exact ⟨_, _, .deep hpersistent hthere hread hdeep⟩
                  | false => exact ⟨_, _, .senseless hpersistent hthere hread hdeep⟩

/-- The settings are filled with what was found, or they stay what they were. -/
theorem Finds.load_eq {store : SettingsStore} {host : Host} {loadError : Option LoadError}
    {found : Except Failure (Table Json × Bool)} (h : store.Finds host loadError found) :
    load store host = match found with
      | .error failure => ({ store with loadError }, .error failure)
      | .ok (stored, dirty) => refill { store with loadError } stored dirty := by
  have hkept : store.persistent = true → ¬ (!store.persistent) = true := fun hpersistent => by
    simp only [hpersistent, Bool.not_true, Bool.false_eq_true, not_false_eq_true]
  unfold load
  cases h with
  | transient hpersistent => exact if_pos (by simp only [hpersistent, Bool.not_false])
  | unasked hpersistent hthere | missing hpersistent hthere =>
      refine (if_neg (hkept hpersistent)).trans ?_
      simp only [hthere]
  | @deep problem hpersistent hthere hread hdeep =>
      have hfile : readFile { store with loadError := none } host = .error problem := hread
      refine (if_neg (hkept hpersistent)).trans ?_
      simp only [hthere, hfile, hdeep, if_true]
  | @senseless problem hpersistent hthere hread hdeep =>
      have hfile : readFile { store with loadError := none } host = .error problem := hread
      refine (if_neg (hkept hpersistent)).trans ?_
      simp only [hthere, hfile, hdeep, Bool.false_eq_true, if_false]
  | @object stored hpersistent hthere hread =>
      have hfile : readFile { store with loadError := none } host = .ok stored := hread
      refine (if_neg (hkept hpersistent)).trans ?_
      simp only [hthere, hfile]

theorem Finds.loadError_eq {store : SettingsStore} {host : Host} {loadError : Option LoadError}
    {found : Except Failure (Table Json × Bool)} (h : store.Finds host loadError found) :
    (load store host).1.loadError = loadError := by
  rw [h.load_eq]
  cases found with
  | error failure => rfl
  | ok found => exact refill_loadError _ _ _

-- What is found is the object in the file, or nothing.
theorem Finds.gives {store : SettingsStore} {host : Host} {loadError : Option LoadError}
    {stored : Table Json} {dirty : Bool} (h : store.Finds host loadError (.ok (stored, dirty))) :
    store.Gives host stored := by
  have hnone : ∀ problem, store.readFile host = .error problem → store.Gives host [] :=
    fun problem hread => Or.inr ⟨rfl, fun other _ hother =>
      absurd (hread.symm.trans hother) (by simp only [reduceCtorEq, not_false_eq_true])⟩
  cases h with
  | transient hpersistent =>
      exact Or.inr ⟨rfl, fun other h => absurd (hpersistent.symm.trans h) Bool.false_ne_true⟩
  | missing _ hthere =>
      rcases readFile_error_of_test store host hthere with ⟨fault, hread⟩
      exact hnone _ hread
  | senseless _ _ hread => exact hnone _ hread
  | object hpersistent _ hread => exact Or.inl ⟨hpersistent, hread⟩

/-- What reading the file leaves, when its path is not too long to be asked about
    and nothing is nested too deep: the defaults with what the file has. -/
theorem load_filled (store : SettingsStore) (host : Host)
    (hdefaults : fits store.defaults [] = true)
    (hasked : store.persistent = true →
      ∃ there, host.test (fun _ => true) store.path.text = .ok there)
    (hdepth : ∀ problem, store.readFile host = .error problem → problem.isTooDeep = false)
    (hfits : ∀ stored, store.readFile host = .ok stored → fits store.defaults stored = true) :
    ∃ stored dirty loadError, store.Gives host stored
      ∧ load store host = ({ store with
          data := withDefaults store.defaults stored, dirty, loadError }, .ok ()) := by
  rcases exists_finds store host with ⟨loadError, found, hfinds⟩
  cases found with
  | error failure =>
      cases hfinds with
      | unasked hpersistent hthere =>
          rcases hasked hpersistent with ⟨there, hasked⟩
          exact absurd (hthere.symm.trans hasked) (by simp only [reduceCtorEq, not_false_eq_true])
      | deep _ _ hread hdeep =>
          exact absurd ((hdepth _ hread).symm.trans hdeep) Bool.false_ne_true
  | ok found =>
      rcases found with ⟨stored, dirty⟩
      have hgives := hfinds.gives
      have hstored : fits store.defaults stored = true := by
        rcases hgives with ⟨_, hread⟩ | ⟨rfl, _⟩
        · exact hfits stored hread
        · exact hdefaults
      exact ⟨stored, dirty, loadError, hgives,
        hfinds.load_eq.trans (refill_fits { store with loadError } stored dirty hstored)⟩

theorem refill_eq_ok {store filled : SettingsStore} {stored : Table Json} {dirty : Bool}
    (h : store.refill stored dirty = (filled, .ok ())) :
    fits store.defaults stored = true
      ∧ filled = { store with data := withDefaults store.defaults stored, dirty } := by
  unfold refill at h
  split at h
  · next hfits => exact ⟨hfits, (Prod.mk.inj h).1.symm⟩
  · exact absurd (Prod.mk.inj h).2 (by simp only [reduceCtorEq, not_false_eq_true])

/-- Whatever was read without a failure are the defaults with what the file has. -/
theorem load_eq_ok {store filled : SettingsStore} {host : Host}
    (h : load store host = (filled, .ok ())) :
    ∃ stored dirty loadError, store.Gives host stored ∧ fits store.defaults stored = true
      ∧ filled = { store with
          data := withDefaults store.defaults stored, dirty, loadError } := by
  rcases exists_finds store host with ⟨loadError, found, hfinds⟩
  rw [hfinds.load_eq] at h
  cases found with
  | error failure => exact absurd (Prod.mk.inj h).2 (by simp only [reduceCtorEq, not_false_eq_true])
  | ok found =>
      rcases found with ⟨stored, dirty⟩
      rcases refill_eq_ok h with ⟨hfits, hfilled⟩
      exact ⟨stored, dirty, loadError, hfinds.gives, hfits, hfilled⟩

theorem find_of_test (store : SettingsStore) (host : Host)
    (h : host.test (fun _ => true) store.path.text = .ok true) :
    ∃ place entry, host.files.find host.workDir store.path.text = .ok (place, entry) := by
  unfold Host.test FileTree.test at h
  cases hfind : host.files.find host.workDir store.path.text with
  | ok found => exact ⟨found.1, found.2, rfl⟩
  | error fault =>
      rw [hfind] at h
      cases fault with
      | refused cause path target =>
          by_cases habsent : cause.meansAbsent = true
          · simp only [habsent, if_true, Except.ok.injEq, Bool.false_eq_true] at h
          · simp only [habsent, Bool.false_eq_true, if_false, reduceCtorEq] at h
      | notPath => exact absurd h (by simp only [Except.ok.injEq, Bool.false_eq_true,
          not_false_eq_true])
      | tooDeep => exact absurd h (by simp only [reduceCtorEq, not_false_eq_true])

-- Only what is wrong with a file that is there is kept.
theorem load_reported (store : SettingsStore) (host : Host) (problem : LoadError)
    (h : (load store host).1.loadError = some problem) :
    host.test (fun _ => true) store.path.text = .ok true
      ∧ load store host = refill { store with loadError := some problem } [] false := by
  rcases exists_finds store host with ⟨loadError, found, hfinds⟩
  rw [hfinds.loadError_eq] at h
  subst h
  have hload := hfinds.load_eq
  cases hfinds with
  | senseless _ hthere => exact ⟨hthere, hload⟩

end SettingsStore

namespace Settings

/-- The names of the values that are brought within bounds. -/
def boundedNames : List Text := ["history_limit", "panel_max_lines"]

/-- Over the defaults, the file has an infinite number where an integer is
    wanted. -/
def Overflows (stored : Table Json) : Prop :=
  ∃ name ∈ boundedNames, ∃ negative,
    valueOf (SettingsStore.fill queryDefaults (Table.get? queries stored)) name
      = .float (.infinity negative)

theorem mem_boundedNames {name : Text} (h : name ∈ boundedNames) :
    name = "history_limit" ∨ name = "panel_max_lines" := by
  simpa only [boundedNames, List.mem_cons, List.not_mem_nil, or_false] using h

theorem not_overflows_nil : ¬ Overflows [] := by
  rintro ⟨name, hname, negative, hvalue⟩
  rcases mem_boundedNames hname with rfl | rfl
  · exact absurd (show Json.int 32 = _ from hvalue)
      (by simp only [reduceCtorEq, not_false_eq_true])
  · exact absurd (show Json.int 20 = _ from hvalue)
      (by simp only [reduceCtorEq, not_false_eq_true])

-- Any other value that is no number gives way to the default.
theorem boundedInt_cases (value : Json) (default low high : Int) :
    (∃ n, boundedInt value default low high = .ok n
        ∧ ∀ negative, value ≠ .float (.infinity negative))
      ∨ (∃ negative, value = .float (.infinity negative))
        ∧ boundedInt value default low high = .error (.notInt .infinite) := by
  cases value with
  | float x =>
      cases x with
      | infinity negative => exact Or.inr ⟨⟨negative, rfl⟩, rfl⟩
      | nan | finite _ _ _ =>
          exact Or.inl ⟨_, rfl, fun _ => by simp only [ne_eq, Json.float.injEq, reduceCtorEq,
            not_false_eq_true]⟩
  | str t =>
      refine Or.inl ?_
      simp only [boundedInt, Json.toInt]
      cases Text.readInt? t with
      | none | some _ =>
          exact ⟨_, rfl, fun _ => by simp only [ne_eq, reduceCtorEq, not_false_eq_true]⟩
  | null | bool _ | int _ | arr _ | obj _ =>
      exact Or.inl ⟨_, rfl, fun _ => by simp only [ne_eq, reduceCtorEq, not_false_eq_true]⟩

theorem normalized_cases (values : Section) :
    (∃ table, normalized values = .ok table
        ∧ (Section.ofFields table).map (·.1) = queryDefaults.map (·.1)
        ∧ ∀ name ∈ boundedNames, ∀ negative, valueOf values name ≠ .float (.infinity negative))
      ∨ (∃ name ∈ boundedNames, ∃ negative, valueOf values name = .float (.infinity negative))
        ∧ normalized values = .error (.notInt .infinite) := by
  unfold normalized
  rcases boundedInt_cases (valueOf values "history_limit") 32 1 500 with
    ⟨limit, hlimit, hfinite⟩ | ⟨⟨negative, hvalue⟩, hlimit⟩
  · rcases boundedInt_cases (valueOf values "panel_max_lines") 20 3 200 with
      ⟨lines, hlines, hfinite'⟩ | ⟨⟨negative, hvalue⟩, hlines⟩
    · refine Or.inl ⟨_, by rw [hlimit, hlines], rfl, fun name hname => ?_⟩
      rcases mem_boundedNames hname with rfl | rfl
      · exact hfinite
      · exact hfinite'
    · exact Or.inr ⟨⟨_, List.mem_cons_of_mem _ List.mem_cons_self, negative, hvalue⟩,
        by rw [hlimit, hlines]⟩
  · exact Or.inr ⟨⟨_, List.mem_cons_self, negative, hvalue⟩, by rw [hlimit]⟩

-- The defaults are fit for use as they are.
theorem normalized_defaults :
    ∃ table, normalized queryDefaults = .ok table
      ∧ Section.agrees queryDefaults (.obj table) = true :=
  ⟨_, rfl, by decide⟩

theorem config_putSection (settings : Settings) (values : Section) :
    config (settings.putSection queries values) = values := by
  rw [config, SettingsStore.putSection, Table.get?_put, if_pos rfl, Option.getD_some]

-- A section that is equal already stays as it is.
theorem set_queries (settings : Settings) (table : Table Json) :
    ∃ after changed, SettingsStore.set settings queries (.obj table) = (after, .ok changed)
      ∧ after.loadError = settings.loadError
      ∧ (Section.agrees (config settings) (.obj table) = true
          ∧ config after = config settings ∧ after.dirty = settings.dirty
        ∨ Section.agrees (config settings) (.obj table) = false
          ∧ config after = Section.ofFields table) := by
  unfold SettingsStore.set
  rw [show SettingsKey.split queries = .ok (queries, []) from rfl]
  simp only [List.isEmpty_nil, if_true, Section.ofJson]
  split
  · next hagrees =>
      exact ⟨_, _, rfl, rfl, Or.inl ⟨hagrees, config_putSection _ _, rfl⟩⟩
  · next hagrees =>
      exact ⟨_, _, rfl, rfl, Or.inr ⟨Bool.eq_false_iff.mpr hagrees, config_putSection _ _⟩⟩

/-- What is read is made fit for use, and the names keep their values, unless one of
    two values is infinite. -/
theorem load_cases {settings filled : SettingsStore} {host : Host}
    (h : SettingsStore.load settings host = (filled, .ok ())) :
    ((load settings host).2 = .ok ()
        ∧ (∀ name ∈ boundedNames, ∀ negative,
            valueOf (config filled) name ≠ .float (.infinity negative))
        ∧ (config (load settings host).1 = config filled
          ∨ (config (load settings host).1).map (·.1) = queryDefaults.map (·.1)))
      ∨ (load settings host = (filled, .error (.notInt .infinite))
        ∧ ∃ name ∈ boundedNames, ∃ negative,
            valueOf (config filled) name = .float (.infinity negative)) := by
  unfold load
  simp only [h]
  rcases normalized_cases (config filled) with
    ⟨table, hnormalized, hnames, hfinite⟩ | ⟨hinfinite, hnormalized⟩
  · rcases set_queries filled table with ⟨after, changed, hset, _, hafter⟩
    simp only [hnormalized, hset]
    refine Or.inl ⟨trivial, hfinite, ?_⟩
    rcases hafter with ⟨_, hvalues, _⟩ | ⟨_, hvalues⟩
    · exact Or.inl hvalues
    · exact Or.inr (by rw [hvalues, hnames])
  · simp only [hnormalized]
    exact Or.inr ⟨trivial, hinfinite⟩

/-- Settings that were loaded are what was read, with the values of the queries'
    section made fit, which stay as they were read when that makes no difference. -/
theorem load_eq_ok {settings : SettingsStore} {host : Host}
    (h : (load settings host).2 = .ok ()) :
    ∃ filled table, SettingsStore.load settings host = (filled, .ok ())
      ∧ normalized (config filled) = .ok table
      ∧ (Section.agrees (config filled) (.obj table) = true
          ∧ config (load settings host).1 = config filled
        ∨ Section.agrees (config filled) (.obj table) = false
          ∧ config (load settings host).1 = Section.ofFields table) := by
  unfold load at h ⊢
  split at h
  · exact absurd h (by simp only [reduceCtorEq, not_false_eq_true])
  · next filled heq =>
      split at h
      · exact absurd h (by simp only [reduceCtorEq, not_false_eq_true])
      · next table hnormalized =>
          rcases set_queries filled table with ⟨after, changed, hset, _, hafter⟩
          refine ⟨filled, table, heq, hnormalized, ?_⟩
          simp only [hset]
          exact hafter.imp (And.imp_right And.left) id

theorem load_loadError (settings : SettingsStore) (host : Host) :
    (load settings host).1.loadError = (SettingsStore.load settings host).1.loadError := by
  unfold load
  split
  · next heq => rw [heq]
  · next filled heq =>
      rw [heq]
      split
      · rfl
      · next table _ =>
          rcases set_queries filled table with ⟨after, changed, hset, hsame, _⟩
          rw [hset]
          exact hsame

/-- Settings whose file is reported to make no sense are the defaults. The file is
    there, and nothing of the settings counts as changed. -/
theorem load_reported (settings : SettingsStore) (host : Host)
    (hdefaults : settings.defaults = defaults) (h : (load settings host).1.loadError ≠ none) :
    (∃ place entry, host.files.find host.workDir settings.path.text = .ok (place, entry))
      ∧ (load settings host).2 = .ok () ∧ (load settings host).1.dirty = false := by
  rcases Option.ne_none_iff_exists'.mp h with ⟨problem, hproblem⟩
  rw [load_loadError] at hproblem
  rcases SettingsStore.load_reported settings host problem hproblem with ⟨hthere, hload⟩
  refine ⟨SettingsStore.find_of_test settings host hthere, ?_⟩
  rw [SettingsStore.refill_fits _ _ _ (by simp only [hdefaults]; decide)] at hload
  rcases normalized_defaults with ⟨table, hnormalized, hagrees⟩
  let filled : SettingsStore := { settings with
    data := SettingsStore.withDefaults settings.defaults [], dirty := false,
    loadError := some problem }
  have hconfig : config filled = queryDefaults := by
    simp only [filled, hdefaults]
    rfl
  rcases set_queries filled table with ⟨after, changed, hset, _, ⟨_, _, hdirty⟩ | ⟨hother, _⟩⟩
  · have hafter : load settings host = (after, .ok ()) := by
      unfold load
      simp only [hload, filled, hconfig, hnormalized, hset]
    rw [hafter]
    exact ⟨rfl, hdirty⟩
  · rw [hconfig, hagrees] at hother
    exact absurd hother Bool.false_ne_true.symm

/-- Settings whose file can be asked for and is not nested too deep can be loaded just
    when the file has no infinite number where an integer is wanted. Then, and also
    when it has one, every name of the queries' section has a value. -/
theorem load_ok_iff (settings : SettingsStore) (host : Host)
    (hdefaults : settings.defaults = defaults)
    (hasked : settings.persistent = true →
      ∃ there, host.test (fun _ => true) settings.path.text = .ok there)
    (hdepth : ∀ problem, settings.readFile host = .error problem → problem.isTooDeep = false)
    (hfits : ∀ stored, settings.readFile host = .ok stored →
      SettingsStore.fits defaults stored = true) :
    ((load settings host).2 = .ok () ↔
        ¬ (settings.persistent = true
          ∧ ∃ stored, settings.readFile host = .ok stored ∧ Overflows stored))
      ∧ ∀ name ∈ queryDefaults.map (·.1),
          (Section.find? name (config (load settings host).1)).isSome = true := by
  rw [← hdefaults] at hfits
  rcases SettingsStore.load_filled settings host (by rw [hdefaults]; decide) hasked hdepth
    hfits with ⟨stored, dirty, loadError, hgives, hread⟩
  have hoverflows : Overflows stored ↔ settings.persistent = true
      ∧ ∃ stored, settings.readFile host = .ok stored ∧ Overflows stored := by
    constructor
    · intro h
      rcases hgives with ⟨hpersistent, hfile⟩ | ⟨rfl, _⟩
      · exact ⟨hpersistent, stored, hfile, h⟩
      · exact absurd h not_overflows_nil
    · rintro ⟨hpersistent, other, hfile, h⟩
      rw [hgives.unique hpersistent hfile]
      exact h
  have hconfig : config { settings with
      data := SettingsStore.withDefaults settings.defaults stored, dirty, loadError }
        = SettingsStore.fill queryDefaults (Table.get? queries stored) := by
    rw [hdefaults]
    rfl
  have htexts : ∀ name ∈ queryDefaults.map (·.1), name.isText = true := by decide
  have hfilled : ∀ name ∈ queryDefaults.map (·.1),
      (SettingsStore.fill queryDefaults (Table.get? queries stored)).Has name := fun name hname =>
    SettingsStore.has_fill _ _ (Section.has_of_mem (htexts name hname) hname) _
  rw [← hoverflows]
  rcases load_cases hread with ⟨hresult, hfinite, hafter⟩ | ⟨hresult, hinfinite⟩
  · rw [hconfig] at hfinite hafter
    refine ⟨iff_of_true hresult ?_, fun name hname => ?_⟩
    · rintro ⟨name, hname, negative, hvalue⟩
      exact hfinite name hname negative hvalue
    · rw [← Section.has_iff]
      rcases hafter with hafter | hafter
      · rw [hafter]
        exact hfilled name hname
      · exact Section.has_of_mem (htexts name hname) (by rw [hafter]; exact hname)
  · rw [hconfig] at hinfinite
    refine ⟨iff_of_false ?_ (fun hnone => hnone hinfinite), fun name hname => ?_⟩
    · rw [hresult]
      exact fun h => absurd h (by simp only [reduceCtorEq, not_false_eq_true])
    · rw [← Section.has_iff, hresult, hconfig]
      exact hfilled name hname

/-- A file with values of the wrong kinds is loaded: a limit that is no number, a
    height that is a word, a search path that is a number. -/
theorem load_ok_odd :
    let host := Host.holding "settings.json" (Utf8.encode
      "\x7b\"oracle\": \x7b\"history_limit\": NaN, \"panel_max_lines\": \"x\", \"gopath\": 3\x7d\x7d")
    let settings := SettingsStore.fresh (FilePath.parse "/settings.json") defaults true
    (load settings host).2 = .ok ()
      ∧ ∀ name ∈ queryDefaults.map (·.1),
          (Section.find? name (config (load settings host).1)).isSome = true := by
  intro host settings
  let stored : Table Json := [("oracle", .obj [
    ("history_limit", .float .nan), ("panel_max_lines", .str "x"), ("gopath", .int 3)])]
  have hread : settings.readFile host = .ok stored := by cbv
  have hasked : host.test (fun _ => true) settings.path.text = .ok true := rfl
  have hloaded := load_ok_iff settings host rfl (fun _ => ⟨true, hasked⟩)
    (fun problem hproblem => absurd (hread.symm.trans hproblem)
      (by simp only [reduceCtorEq, not_false_eq_true]))
    (fun other hother => by
      rw [← Except.ok.inj (hread.symm.trans hother)]
      decide)
  refine ⟨hloaded.1.mpr ?_, hloaded.2⟩
  rintro ⟨_, other, hother, name, hname, negative, hvalue⟩
  rw [← Except.ok.inj (hread.symm.trans hother)] at hvalue
  rcases mem_boundedNames hname with rfl | rfl
  · exact absurd (show Json.float .nan = _ from hvalue)
      (by simp only [Json.float.injEq, reduceCtorEq, not_false_eq_true])
  · exact absurd (show Json.str "x" = _ from hvalue)
      (by simp only [reduceCtorEq, not_false_eq_true])

/-- A file with an infinite limit. It can be read, and the loading fails. -/
theorem infinite_limit_fails :
    let host := Host.holding "settings.json"
      (Utf8.encode "\x7b\"oracle\": \x7b\"history_limit\": Infinity\x7d\x7d")
    let settings := SettingsStore.fresh (FilePath.parse "/settings.json") defaults true
    settings.readFile host
        = .ok [("oracle", .obj [("history_limit", .float (.infinity false))])]
      ∧ (load settings host).2 = .error (.notInt .infinite)
      ∧ (load settings host).2 ≠ .ok () := by
  intro host settings
  have hfailed : (load settings host).2 = .error (.notInt .infinite) := by cbv
  refine ⟨by cbv, hfailed, ?_⟩
  rw [hfailed]
  simp only [ne_eq, reduceCtorEq, not_false_eq_true]

end Settings

end QueryDesk
