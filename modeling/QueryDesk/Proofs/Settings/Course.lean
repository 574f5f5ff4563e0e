import QueryDesk.Proofs.Desk.Loaded
import QueryDesk.Proofs.Files.Overwrite
import QueryDesk.Proofs.Settings.Stored

/-!
# The course of a settings store

After settings were read they are asked for, set, written and read again, in any
order. As long as nobody else writes the file, settings that count as unchanged are
what a store that has read nothing yet reads from the file. This is an invariant of
every call: it holds after reading, since reading does not see what was in memory,
and after writing, since what is written is read back and covers the defaults. A
value that is set and differs makes the settings count as changed, and one that is
equal changes nothing. The file is written in place and keeps its permissions, so
that it can be written does not tell that it can be read; this is asked of the system.

What is set has to be a value in a section of the defaults. A whole section that is
put in place of another need not cover its defaults, and they come back when it is
read. How deep values are nested makes no difference until the end, since settings
that are too deep to be read stay what they are.

## Main definitions

* `SettingsStore.Call`: What can be asked of a store.
* `SettingsStore.follow`: What a course of calls leaves.
* `SettingsStore.Call.Within`: A call that sets values in sections only.
* `SettingsStore.Sound`: What holds of a store and its host after every call.
* `SettingsStore.Holds`: A value that was set is there.

## Theorems

* `load_again`: Reading does not see what was in memory.
* `save_written`: What is read after writing.
* `set_dotted`, `set_whole`: What setting a value in a section, and a section, does.
* `Sound.read_saved`: What a store that has read nothing yet reads after writing.
* `sound_step`, `sound_follow`: Every call keeps the invariant, and so does a course.
* `holds_step`, `holds_follow`: A value stays until it is set again.
* `unchanged_reload`: Settings that count as unchanged are what is read anew.
* `unchanged_reload_fails`: Settings that are not read as they were written.
-/

namespace QueryDesk

namespace SettingsStore

/-! ## Reading -/

-- What is found in the file does not depend on what was in memory.
theorem Finds.again {store : SettingsStore} {host : Host} {loadError : Option LoadError}
    {found : Except Failure (Table Json × Bool)} (h : store.Finds host loadError found)
    (data : Sections) (dirty : Bool) (old : Option LoadError) :
    Finds { store with data, dirty, loadError := old } host loadError found := by
  cases h with
  | transient hpersistent => exact .transient hpersistent
  | unasked hpersistent hthere => exact .unasked hpersistent hthere
  | missing hpersistent hthere => exact .missing hpersistent hthere
  | deep hpersistent hthere hread hdeep => exact .deep hpersistent hthere hread hdeep
  | senseless hpersistent hthere hread hdeep => exact .senseless hpersistent hthere hread hdeep
  | object hpersistent hthere hread => exact .object hpersistent hthere hread

/-- Reading again gives the same, whatever was in memory. -/
theorem load_again {store filled : SettingsStore} {host : Host}
    (h : load store host = (filled, .ok ())) (data : Sections) (dirty : Bool)
    (old : Option LoadError) :
    load { store with data, dirty, loadError := old } host = (filled, .ok ()) := by
  rcases exists_finds store host with ⟨loadError, found, hfinds⟩
  rw [hfinds.load_eq] at h
  rw [(hfinds.again data dirty old).load_eq]
  cases found with
  | error failure => exact absurd (Prod.mk.inj h).2 (by simp only [reduceCtorEq, not_false_eq_true])
  | ok found =>
      rcases refill_eq_ok h with ⟨hfits, rfl⟩
      exact refill_fits _ _ _ hfits

/-- Settings that cannot be read stay what they were. -/
theorem load_failed {store left : SettingsStore} {host : Host} {failure : Failure}
    (h : load store host = (left, .error failure)) :
    ∃ loadError, left = { store with loadError } := by
  rcases exists_finds store host with ⟨loadError, found, hfinds⟩
  rw [hfinds.load_eq] at h
  refine ⟨loadError, ?_⟩
  cases found with
  | error _ => exact (Prod.mk.inj h).1.symm
  | ok found =>
      simp only [refill] at h
      split at h
      · exact absurd (Prod.mk.inj h).2 (by simp only [reduceCtorEq, not_false_eq_true])
      · exact (Prod.mk.inj h).1.symm

/-- An object that is in the file is taken over if it fits. -/
theorem load_of_readFile {store : SettingsStore} {host : Host} {stored : Table Json}
    (hpersistent : store.persistent = true) (hread : store.readFile host = .ok stored) :
    load store host = refill { store with loadError := none } stored false := by
  have hthere : host.test (fun _ => true) store.path.text = .ok true := by
    unfold readFile FileTree.openBytes at hread
    unfold Host.test FileTree.test
    cases hfind : host.files.find host.workDir store.path.text with
    | ok found => rfl
    | error fault =>
        rw [hfind] at hread
        exact absurd hread (by simp only [reduceCtorEq, not_false_eq_true])
  exact (Finds.object hpersistent hthere hread).load_eq

theorem regular_of_readFile {store : SettingsStore} {host : Host} {stored : Table Json}
    (h : store.readFile host = .ok stored) : (Json.obj stored).Regular := by
  unfold readFile at h
  split at h
  · exact absurd h (by simp only [reduceCtorEq, not_false_eq_true])
  · exact Json.regular_of_read ((parse_eq_ok_iff _).mp h).2

/-! ## Writing -/

/-- What is read after writing is what was written, unless the system keeps it. -/
theorem save_written {store saved : SettingsStore} {host after : Host}
    (hpersistent : store.persistent = true)
    (hstart : host.files.kind? (FileTree.startOf host.workDir store.path.text) = some .directory)
    (h : store.save host = (saved, after, .ok ())) :
    ∃ payload, store.payload? = some payload
      ∧ saved = { store with loadError := none, dirty := false }
      ∧ after.refusals = host.refusals
      ∧ after.files.kind? (FileTree.startOf after.workDir store.path.text) = some .directory
      ∧ (host.refusals.Admits Attempt.Reads →
        store.readFile after = parse (Utf8.encode payload)) := by
  unfold save at h
  rw [if_neg (by rw [hpersistent]; exact Bool.false_ne_true)] at h
  cases hpayload : store.payload? with
  | none =>
      rw [hpayload] at h
      exact absurd (Prod.mk.inj (Prod.mk.inj h).2).2
        (by simp only [reduceCtorEq, not_false_eq_true])
  | some payload =>
      rw [hpayload] at h
      simp only at h
      split at h
      · exact absurd (Prod.mk.inj (Prod.mk.inj h).2).2
          (by simp only [reduceCtorEq, not_false_eq_true])
      next made hmade =>
      split at h
      · exact absurd (Prod.mk.inj (Prod.mk.inj h).2).2
          (by simp only [reduceCtorEq, not_false_eq_true])
      next written hwritten =>
      rcases Prod.mk.inj h with ⟨hsaved, hrest⟩
      rw [← (Prod.mk.inj hrest).1]
      have hextends := FileTree.makeDirectories_extends host.files host.refusals host.workDir
        store.path.parent
      rw [hmade] at hextends
      have hmid : made.kind? (FileTree.startOf host.workDir store.path.text) = some .directory :=
        (hextends.keeps _ (by rw [hstart]; exact Option.some_ne_none _)).trans hstart
      rcases FileTree.find_overwrite hmid hwritten with ⟨place, executable, hfind⟩
      refine ⟨payload, rfl, hsaved.symm, rfl, FileTree.kind?_overwrite hmid hwritten,
        fun hreads => ?_⟩
      simp only [readFile, FileTree.openBytes, hfind, hreads _ (.read place) trivial,
        FileTree.readBytes]

/-! ## Keys of values in a section -/

/-- The key is that of a value in a section. -/
structure Dotted (key sectionName name : Text) : Prop where
  split : SettingsKey.split key = .ok (sectionName, name)
  inside : name ≠ []

variable {store : SettingsStore} {key sectionName name : Text} {values : Section}

theorem get_dotted (hkey : Dotted key sectionName name)
    (hvalues : Table.get? sectionName store.data = some values) (default : Json) :
    store.get key default = .ok ((Section.get? name values).getD default) := by
  unfold get
  simp only [hkey.split, hvalues]
  rw [if_neg (mt List.isEmpty_iff.mp hkey.inside)]

/-- A value that is set in a section changes nothing when it is equal to the one that
    is there, and takes its place when it is not. -/
theorem set_dotted (hkey : Dotted key sectionName name)
    (hvalues : Table.get? sectionName store.data = some values) (value : Json) :
    (∃ found, Section.get? name values = some found ∧ found.agrees value = true
        ∧ store.set key value = (store, .ok false))
      ∨ store.set key value = ({ store with
          data := Table.put sectionName (Section.put name value values) store.data,
          dirty := true }, .ok true) := by
  have hsame : store.putSection sectionName values = store := by
    rw [putSection, Table.put_of_get? hvalues]
  unfold set
  simp only [hkey.split, hvalues, Option.getD_some, hsame]
  rw [if_neg (mt List.isEmpty_iff.mp hkey.inside)]
  cases hfound : Section.get? name values with
  | none => exact Or.inr rfl
  | some found =>
      by_cases hagrees : found.agrees value = true
      · exact Or.inl ⟨found, rfl, hagrees, by rw [Option.map_some, hagrees]⟩
      · rw [Bool.not_eq_true] at hagrees
        exact Or.inr (by rw [Option.map_some, hagrees]; rfl)

/-- An object that is set for a whole section changes nothing when it is equal to the
    section, and takes its place when it is not. -/
theorem set_whole (hkey : SettingsKey.split key = .ok (sectionName, []))
    (hvalues : Table.get? sectionName store.data = some values) (fields : Table Json) :
    store.set key (.obj fields)
      = if Section.agrees values (.obj fields) then (store, .ok false)
        else
          ({ store with
            data := Table.put sectionName (.ofFields fields) store.data
            dirty := true }, .ok true) := by
  have hsame : store.putSection sectionName values = store := by
    rw [putSection, Table.put_of_get? hvalues]
  unfold set
  simp only [hkey, hvalues, Option.getD_some, hsame, List.isEmpty_nil, if_true, Section.ofJson]
  rfl

/-! ## Calls -/

/-- What can be asked of a store. -/
inductive Call
  | get (key : Text) (default : Json)
  | set (key : Text) (value : Json)
  | save
  | load

/-- The store and its host after a call. Settings that cannot be written end a course
    of calls; settings that cannot be read do not. -/
def after (state : SettingsStore × Host) : Call → Except Failure (SettingsStore × Host)
  | .get _ _ => .ok state
  | .set key value => .ok ((state.1.set key value).1, state.2)
  | .save =>
      match state.1.save state.2 with
      | (saved, host, .ok ()) => .ok (saved, host)
      | (_, _, .error failure) => .error failure
  | .load => .ok ((state.1.load state.2).1, state.2)

/-- The store and its host after one call and then another. -/
def follow : SettingsStore × Host → List Call → Except Failure (SettingsStore × Host)
  | state, [] => .ok state
  | state, call :: calls =>
      match after state call with
      | .ok next => follow next calls
      | .error failure => .error failure

/-- What is set is a value in a section that has defaults, and it comes back from a
    file together with its name. -/
def Call.Within (defaults : Sections) : Call → Prop
  | .set key value => ∃ sectionName name, Dotted key sectionName name
      ∧ sectionName ∈ defaults.map (·.1) ∧ name.Separate ∧ value.Storable
  | .get _ _ | .save | .load => True

/-- What holds of a store and its host after every call. -/
structure Sound (path : FilePath) (defaults : Sections) (state : SettingsStore × Host) : Prop where
  same_path : state.1.path = path
  same_defaults : state.1.defaults = defaults
  persistent : state.1.persistent = true
  /-- The path leads away from a directory. -/
  start : state.2.files.kind? (FileTree.startOf state.2.workDir path.text) = some .directory
  reads : state.2.refusals.Admits Attempt.Reads
  file : ∀ stored, state.1.readFile state.2 = .ok stored → (Json.obj stored).Storable
  data : state.1.data.Storable
  covers : state.1.data.Covers defaults
  /-- Settings that count as unchanged are what is read from the file. -/
  clean : state.1.dirty = false → state.1.data.Shallow →
    ∃ again, load (fresh path defaults true) state.2 = (again, .ok ())
      ∧ (Sections.toJson again.data).sorted = (Sections.toJson state.1.data).sorted

variable {path : FilePath} {defaults : Sections} {host : Host}

/-- Settings that were read without a failure are sound. -/
theorem sound_filled {filled : SettingsStore} (hpath : store.path = path)
    (hsections : store.defaults = defaults) (hpersistent : store.persistent = true)
    (hdefaults : defaults.Storable)
    (hstart : host.files.kind? (FileTree.startOf host.workDir path.text) = some .directory)
    (hreads : host.refusals.Admits Attempt.Reads)
    (hfile : ∀ stored, store.readFile host = .ok stored → (Json.obj stored).Storable)
    (h : load store host = (filled, .ok ())) : Sound path defaults (filled, host) := by
  subst hpath hsections
  have hfresh := load_again h [] false none
  rw [hpersistent] at hfresh
  rcases load_eq_ok h with ⟨stored, dirty, loadError, hgives, _, rfl⟩
  have hstored : (Json.obj stored).Storable := by
    rcases hgives with ⟨_, hread⟩ | ⟨rfl, _⟩
    · exact hfile stored hread
    · exact .nil
  exact {
    same_path := rfl
    same_defaults := rfl
    persistent := hpersistent
    start := hstart
    reads := hreads
    file := hfile
    data := withDefaults_storable hdefaults hstored
    covers := withDefaults_covers store.defaults stored
    clean := fun _ _ => ⟨_, hfresh, rfl⟩ }

/-- Settings that a store read first are sound. -/
theorem sound_fresh {filled : SettingsStore} (hdefaults : defaults.Storable)
    (hstart : host.files.kind? (FileTree.startOf host.workDir path.text) = some .directory)
    (hreads : host.refusals.Admits Attempt.Reads)
    (hfile : ∀ stored, (fresh path defaults true).readFile host = .ok stored →
      (Json.obj stored).Storable)
    (h : load (fresh path defaults true) host = (filled, .ok ())) :
    Sound path defaults (filled, host) :=
  sound_filled (show (fresh path defaults true).path = path from rfl) rfl rfl hdefaults hstart
    hreads hfile h

theorem sound_load (hdefaults : defaults.Storable) (h : Sound path defaults (store, host)) :
    Sound path defaults ((load store host).1, host) := by
  cases hload : load store host with
  | mk left result =>
      cases result with
      | ok _ =>
          exact sound_filled h.same_path h.same_defaults h.persistent hdefaults h.start h.reads
            h.file hload
      | error failure =>
          rcases load_failed hload with ⟨loadError, rfl⟩
          exact { h with }

/-- A section can be put in place of another if it comes back from a file and has a value
    under every name that has a default. -/
theorem Sound.change (h : Sound path defaults (store, host))
    (hvalues : Table.get? sectionName store.data = some values) {fields : Table Json}
    (hfields : (Json.obj fields).Storable)
    (hcovers : ∀ base, Table.get? sectionName defaults = some base →
      ∀ inside, base.Has inside → (Section.ofFields fields).Has inside) :
    Sound path defaults ({ store with
      data := Table.put sectionName (.ofFields fields) store.data, dirty := true }, host) := by
  have hsection := List.mem_map_of_mem (f := (·.1)) (Table.mem_of_get? _ _ _ hvalues)
  rcases h.data.of_get? hvalues with ⟨_, _, hseparate, _⟩
  exact {
    same_path := h.same_path
    same_defaults := h.same_defaults
    persistent := h.persistent
    start := h.start
    reads := h.reads
    file := h.file
    data := h.data.put hseparate hfields
    covers := {
      names := (Table.keys_put_of_mem hsection _).trans h.covers.names
      values := by
        intro other found base hfound hbase inside hhas
        rw [Table.get?_put] at hfound
        split at hfound
        · next heq =>
            subst heq
            rw [← Option.some.inj hfound]
            exact hcovers base hbase inside hhas
        · exact h.covers.values hfound hbase inside hhas }
    clean := fun hdirty => absurd hdirty Bool.false_ne_true.symm }

theorem sound_set (h : Sound path defaults (store, host)) {value : Json}
    (hwithin : Call.Within defaults (.set key value)) :
    Sound path defaults ((store.set key value).1, host) := by
  rcases hwithin with ⟨sectionName, name, hkey, hsection, hname, hvalue⟩
  rw [← h.covers.names] at hsection
  rcases Table.get?_of_mem_keys hsection with ⟨values, hvalues⟩
  rcases set_dotted hkey hvalues value with ⟨_, _, _, hset⟩ | hset
  · rw [hset]
    exact h
  rw [hset]
  rcases h.data.of_get? hvalues with ⟨fields, rfl, _, hfields⟩
  rw [Section.put_ofFields]
  refine h.change hvalues (hfields.put hname hvalue) fun base hbase inside hhas => ?_
  rw [← Section.put_ofFields]
  exact (h.covers.values hvalues hbase inside hhas).put _ _

/-- A store that has read nothing yet reads what sound settings were written as, if they
    are not nested too deep. They count as unchanged, and nothing is wrong with the
    file. -/
theorem Sound.read_saved (hdefaults : defaults.Storable) (hshallow : defaults.Shallow)
    {saved : SettingsStore} {later : Host} (h : Sound path defaults (store, host))
    (hsave : store.save host = (saved, later, .ok ())) (hdepth : store.data.Shallow) :
    ∃ again, load (fresh path defaults true) later = (again, .ok ())
      ∧ again.dirty = false ∧ again.loadError = none ∧ again.data.Storable
      ∧ (Sections.toJson again.data).sorted = (Sections.toJson store.data).sorted := by
  have hstart := h.start
  rw [← h.same_path] at hstart
  rcases save_written h.persistent hstart hsave with ⟨payload, hpayload, rfl, _, _, hread⟩
  rw [payload?, Sections.print?_eq h.data.texts] at hpayload
  replace hread := hread h.reads
  rw [← Option.some.inj hpayload] at hread
  rcases parse_print h.data (Nat.le_trans hdepth.depth_le (by decide)) with
    ⟨stored, hparse, hobject⟩
  have hstored : (Json.obj stored).Storable := by
    rw [hobject]
    exact h.data.value.sorted
  have hsorted : (Json.obj stored).sorted = (Sections.toJson store.data).sorted := by
    rw [hobject, Json.sorted_sorted]
  have hfresh : (fresh path defaults true).readFile later = .ok stored := by
    rw [← hparse, ← hread, ← h.same_path]
    rfl
  have hfits := (fits_iff_of_sorted hshallow h.data h.covers.names hstored hsorted).mpr hdepth
  exact ⟨_, (load_of_readFile rfl hfresh).trans (refill_fits _ _ _ hfits), rfl, rfl,
    withDefaults_storable hdefaults hstored,
    withDefaults_sorted hdefaults h.data h.covers hstored hsorted⟩

theorem sound_save (hdefaults : defaults.Storable) (hshallow : defaults.Shallow)
    {saved : SettingsStore} {later : Host} (h : Sound path defaults (store, host))
    (hsave : store.save host = (saved, later, .ok ())) : Sound path defaults (saved, later) := by
  have hreload := h.read_saved hdefaults hshallow hsave
  have hstart := h.start
  rw [← h.same_path] at hstart
  rcases save_written h.persistent hstart hsave with
    ⟨payload, hpayload, rfl, hrefusals, hdirectory, hread⟩
  rw [payload?, Sections.print?_eq h.data.texts] at hpayload
  replace hread := hread h.reads
  rw [← Option.some.inj hpayload] at hread
  rw [h.same_path] at hdirectory
  exact {
    same_path := h.same_path
    same_defaults := h.same_defaults
    persistent := h.persistent
    start := hdirectory
    reads := hrefusals ▸ h.reads
    file := by
      intro stored hstored
      rw [eq_sorted_of_parse h.data (hread.symm.trans hstored)]
      exact h.data.value.sorted
    data := h.data
    covers := h.covers
    clean := by
      intro _ hdepth
      rcases hreload hdepth with ⟨again, hload, _, _, _, hsorted⟩
      exact ⟨again, hload, hsorted⟩ }

/-- Every call keeps the invariant. -/
theorem sound_step (hdefaults : defaults.Storable) (hshallow : defaults.Shallow)
    {state next : SettingsStore × Host} (h : Sound path defaults state) {call : Call}
    (hwithin : call.Within defaults) (hnext : after state call = .ok next) :
    Sound path defaults next := by
  cases call with
  | get key default => exact Except.ok.inj hnext ▸ h
  | set key value => exact Except.ok.inj hnext ▸ sound_set h hwithin
  | save =>
      rw [after] at hnext
      split at hnext
      · next hsave => exact Except.ok.inj hnext ▸ sound_save hdefaults hshallow h hsave
      · exact absurd hnext (by simp only [reduceCtorEq, not_false_eq_true])
  | load => exact Except.ok.inj hnext ▸ sound_load hdefaults h

/-- A course of calls keeps the invariant. -/
theorem sound_follow (hdefaults : defaults.Storable) (hshallow : defaults.Shallow)
    {state last : SettingsStore × Host} (h : Sound path defaults state) {calls : List Call}
    (hwithin : ∀ call ∈ calls, call.Within defaults) (hlast : follow state calls = .ok last) :
    Sound path defaults last := by
  induction calls generalizing state with
  | nil => exact Except.ok.inj hlast ▸ h
  | cons call calls ih =>
      rw [List.forall_mem_cons] at hwithin
      unfold follow at hlast
      split at hlast
      · next hnext => exact ih (sound_step hdefaults hshallow h hwithin.1 hnext) hwithin.2 hlast
      · exact absurd hlast (by simp only [reduceCtorEq, not_false_eq_true])

/-! ## Values that were set -/

/-- The call neither reads the file nor sets the value under the key. -/
def Call.Leaves (key : Text) : Call → Prop
  | .get _ _ | .save => True
  | .set other _ => SettingsKey.split other ≠ SettingsKey.split key
  | .load => False

/-- There is a value in the section that is equal to the given one. -/
def Holds (sectionName name : Text) (value : Json) (data : Sections) : Prop :=
  ∃ found, data.value? sectionName name = some found ∧ found.alike value = true

/-- A value that was set is there. -/
theorem holds_set (h : Sound path defaults (store, host)) (hkey : Dotted key sectionName name)
    (hsection : sectionName ∈ defaults.map (·.1)) {value : Json} (hvalue : value.Storable) :
    Holds sectionName name value (store.set key value).1.data := by
  rw [← h.covers.names] at hsection
  rcases Table.get?_of_mem_keys hsection with ⟨values, hvalues⟩
  rcases set_dotted hkey hvalues value with ⟨found, hfound, hagrees, hset⟩ | hset
  · rw [hset]
    refine ⟨found, (Sections.value?_eq_some_iff _ _ _).mpr ⟨values, hvalues, hfound⟩, ?_⟩
    rw [Json.alike, hagrees, Bool.or_true]
  · rw [hset]
    refine ⟨value, ?_, Json.alike_refl hvalue.regular⟩
    rw [h.data.value?_put hvalues value, if_pos ⟨rfl, rfl⟩]

/-- A value stays as long as it is not set again and the file is not read. -/
theorem holds_step {state next : SettingsStore × Host} (h : Sound path defaults state)
    (hkey : Dotted key sectionName name) {value : Json}
    (hholds : Holds sectionName name value state.1.data) {call : Call}
    (hwithin : call.Within defaults) (hleaves : call.Leaves key)
    (hnext : after state call = .ok next) : Holds sectionName name value next.1.data := by
  cases call with
  | get _ _ => exact Except.ok.inj hnext ▸ hholds
  | set other otherValue =>
      rw [← Except.ok.inj hnext]
      rcases hwithin with ⟨otherSection, otherName, hother, hsection, _⟩
      rw [← h.covers.names] at hsection
      rcases Table.get?_of_mem_keys hsection with ⟨values, hvalues⟩
      rcases set_dotted hother hvalues otherValue with ⟨_, _, _, hset⟩ | hset
      · rw [hset]
        exact hholds
      · rcases hholds with ⟨found, hfound, halike⟩
        refine ⟨found, ?_, halike⟩
        rw [hset, h.data.value?_put hvalues, if_neg, hfound]
        rintro ⟨rfl, rfl⟩
        exact hleaves (hother.split.trans hkey.split.symm)
  | save =>
      rw [after] at hnext
      split at hnext
      · next hsave =>
          have hstart := h.start
          rw [← h.same_path] at hstart
          rcases save_written h.persistent hstart hsave with ⟨_, _, hsaved, _⟩
          rw [← Except.ok.inj hnext, hsaved]
          exact hholds
      · exact absurd hnext (by simp only [reduceCtorEq, not_false_eq_true])
  | load => exact hleaves.elim

theorem holds_follow (hdefaults : defaults.Storable) (hshallow : defaults.Shallow)
    {state last : SettingsStore × Host} (h : Sound path defaults state)
    (hkey : Dotted key sectionName name) {value : Json}
    (hholds : Holds sectionName name value state.1.data) {calls : List Call}
    (hwithin : ∀ call ∈ calls, call.Within defaults) (hleaves : ∀ call ∈ calls, call.Leaves key)
    (hlast : follow state calls = .ok last) : Holds sectionName name value last.1.data := by
  induction calls generalizing state with
  | nil => exact Except.ok.inj hlast ▸ hholds
  | cons call calls ih =>
      rw [List.forall_mem_cons] at hwithin hleaves
      unfold follow at hlast
      split at hlast
      · next hnext =>
          exact ih (sound_step hdefaults hshallow h hwithin.1 hnext)
            (holds_step h hkey hholds hwithin.1 hleaves.1 hnext) hwithin.2 hleaves.2 hlast
      · exact absurd hlast (by simp only [reduceCtorEq, not_false_eq_true])

theorem follow_append (state : SettingsStore × Host) (earlier later : List Call) :
    follow state (earlier ++ later) = match follow state earlier with
      | .ok middle => follow middle later
      | .error failure => .error failure := by
  induction earlier generalizing state with
  | nil => rfl
  | cons call earlier ih =>
      rw [List.cons_append, follow, follow]
      cases after state call with
      | ok next => exact ih next
      | error failure => rfl

/-! ## A store that has read nothing yet -/

/-- Sound settings that count as unchanged are what is read from the file, up to the
    order of fields. -/
theorem Sound.reload (hdefaults : defaults.Storable) (h : Sound path defaults (store, host))
    (hclean : store.dirty = false) (hshallow : store.data.Shallow) :
    ∃ again, load (fresh path defaults true) host = (again, .ok ())
      ∧ again.data.Storable
      ∧ (Sections.toJson again.data).sorted = (Sections.toJson store.data).sorted := by
  rcases h.clean hclean hshallow with ⟨again, hload, hsorted⟩
  have hfile : ∀ stored, (fresh path defaults true).readFile host = .ok stored →
      (Json.obj stored).Storable := by
    intro stored hstored
    refine h.file stored ?_
    rw [← hstored, ← h.same_path]
    rfl
  exact ⟨again, hload, (sound_fresh hdefaults h.start h.reads hfile hload).data, hsorted⟩

/-- Values with one sorted form hold the same values. -/
theorem Holds.of_sorted {data other : Sections} {value : Json}
    (h : Holds sectionName name value data) (hdata : data.Storable) (hother : other.Storable)
    (hsorted : (Sections.toJson other).sorted = (Sections.toJson data).sorted) :
    Holds sectionName name value other := by
  rcases h with ⟨found, hfound, halike⟩
  have hsame := Sections.value?_of_sorted hother hdata hsorted sectionName name
  rw [hfound, Option.map_some, Option.map_eq_some_iff] at hsame
  rcases hsame with ⟨again, hagain, hform⟩
  exact ⟨again, hagain, Json.alike_of_sorted (hdata.of_value? hfound).regular
    (hother.of_value? hagain).regular hform halike⟩

/-- After settings were read, settings that count as unchanged are what a store that has
    read nothing yet reads, and a value that was set last under its key and written since
    is read back as an equal one. The system does not keep the file from being read. -/
theorem unchanged_reload (path : FilePath) {defaults : Sections} (hdefaults : defaults.Storable)
    {host : Host}
    (hstart : Path.isAbsolute path.text = false →
      host.files.kind? host.workDir = some .directory)
    (hreads : host.refusals.Admits Attempt.Reads)
    (hfile : ∀ stored, (fresh path defaults true).readFile host = .ok stored →
      (Json.obj stored).Faithful)
    {first : SettingsStore} (hfirst : load (fresh path defaults true) host = (first, .ok ()))
    {calls : List Call} (hcalls : ∀ call ∈ calls, call.Within defaults)
    {store : SettingsStore} {last : Host} (hlast : follow (first, host) calls = .ok (store, last))
    (hclean : store.dirty = false) (hshallow : store.data.Shallow) :
    ∃ again, load (fresh path defaults true) last = (again, .ok ())
      ∧ (Sections.toJson again.data).sorted = (Sections.toJson store.data).sorted
      ∧ Json.alike (Sections.toJson again.data) (Sections.toJson store.data) = true
      ∧ ∀ earlier key value later, calls = earlier ++ .set key value :: later →
        (∀ call ∈ later, call.Leaves key) →
        ∃ found, (∀ default, again.get key default = .ok found) ∧ found.alike value = true := by
  have hbase : defaults.Shallow := by
    rcases load_eq_ok hfirst with ⟨stored, _, _, _, hfits, _⟩
    exact ((fits_iff defaults stored).mp hfits).1
  have hdirectory :
      host.files.kind? (FileTree.startOf host.workDir path.text) = some .directory := by
    rw [FileTree.startOf]
    split
    · exact host.files.kind?_root
    · next hrelative => exact hstart (Bool.eq_false_iff.mpr hrelative)
  have hsound := sound_fresh hdefaults hdirectory hreads
    (fun stored hstored => ⟨regular_of_readFile hstored, hfile stored hstored⟩) hfirst
  have hend := sound_follow hdefaults hbase hsound hcalls hlast
  rcases hend.reload hdefaults hclean hshallow with ⟨again, hload, hstorable, hsorted⟩
  have hregular := hend.data.value.regular
  refine ⟨again, hload, hsorted, Json.alike_of_sorted hregular hstorable.value.regular hsorted
    (Json.alike_refl hregular), fun earlier key value later hsplit hleaves => ?_⟩
  subst hsplit
  rw [follow_append] at hlast
  split at hlast
  · next middle hmiddle =>
      rw [List.forall_mem_append, List.forall_mem_cons] at hcalls
      rcases hcalls with ⟨hearlier, hset, hlater⟩
      have hmid := sound_follow hdefaults hbase hsound hearlier hmiddle
      rcases hset with ⟨sectionName, name, hkey, hsection, hname, hvalue⟩
      have hholds := holds_follow hdefaults hbase
        (sound_set hmid ⟨sectionName, name, hkey, hsection, hname, hvalue⟩) hkey
        (holds_set hmid hkey hsection hvalue) hlater hleaves hlast
      rcases hholds.of_sorted hend.data hstorable hsorted with ⟨found, hfound, halike⟩
      rcases (Sections.value?_eq_some_iff _ _ _).mp hfound with ⟨values, hvalues, hinside⟩
      refine ⟨found, fun default => ?_, halike⟩
      rw [get_dotted hkey hvalues, hinside, Option.getD_some]
  · exact absurd hlast (by simp only [reduceCtorEq, not_false_eq_true])

/-- One section with one default. -/
def oneDefault : Sections := [("s", .ofFields [("a", .int 1)])]

/-- A store with one default that has read nothing yet. -/
def oneFresh : SettingsStore :=
  fresh (FilePath.parse "/s.json") oneDefault true

theorem oneDefault_storable : oneDefault.Storable where
  texts := List.forall_mem_singleton.mpr ⟨_, rfl⟩
  value := by
    have hsection : (Json.obj [("a", .int 1)]).Storable := (Json.storable_obj_iff _).mpr
      ⟨List.nodup_singleton _, List.forall_mem_singleton.mpr
        ⟨.singleton _, .int 1 (by decide), .int 1⟩⟩
    exact (Json.storable_obj_iff _).mpr
      ⟨List.nodup_singleton _, List.forall_mem_singleton.mpr ⟨.singleton _, hsection⟩⟩

/-- A file has one more value, a list is set beside it and written, and both are read
    back. -/
theorem unchanged_reload_beside :
    let host := Host.holding "s.json" (Utf8.encode "\x7b\"s\": \x7b\"b\": null\x7d\x7d")
    let value : Json := .arr [.str "x", .bool true]
    ∃ first store last, load oneFresh host = (first, .ok ())
      ∧ follow (first, host) [.set "s.c" value, .save] = .ok (store, last)
      ∧ store.dirty = false
      ∧ ∃ again, load oneFresh last = (again, .ok ())
        ∧ Json.alike (Sections.toJson again.data) (Sections.toJson store.data) = true
        ∧ ∃ found, (∀ default, again.get "s.c" default = .ok found) ∧ found.alike value = true := by
  intro host value
  let first : SettingsStore := { oneFresh with
    data := [("s", .ofFields [("a", .int 1), ("b", .null)])] }
  let store : SettingsStore := { oneFresh with
    data := [("s", .ofFields [("a", .int 1), ("b", .null), ("c", value)])] }
  have hread : oneFresh.readFile host = .ok [("s", .obj [("b", .null)])] := by cbv
  have hfirst : load oneFresh host = (first, .ok ()) := by cbv
  have hlast : follow (first, host) [.set "s.c" value, .save]
      = .ok (store, .holding "s.json" (Utf8.encode (Sections.toJson store.data).print)) := by cbv
  have hvalue : value.Storable := by
    refine ⟨.arr _ fun item hmem => ?_, .arr _ fun item hmem => ?_⟩
    · rw [List.mem_pair] at hmem
      rcases hmem with rfl | rfl
      · exact .str _
      · exact .bool _
    · rw [List.mem_pair] at hmem
      rcases hmem with rfl | rfl
      · exact .str _ (.singleton _)
      · exact .bool _
  have hcalls : ∀ call ∈ [Call.set "s.c" value, .save], call.Within oneDefault := by
    refine List.forall_mem_cons.mpr ⟨?_, List.forall_mem_singleton.mpr trivial⟩
    exact ⟨"s", "c", ⟨rfl, by decide⟩, List.mem_singleton.mpr rfl, .singleton _, hvalue⟩
  rcases unchanged_reload (FilePath.parse "/s.json") oneDefault_storable
    (fun habsolute => absurd habsolute (by decide))
    (Refusals.admits_none _)
    (fun stored hstored => by
      rw [← Except.ok.inj (hread.symm.trans hstored)]
      exact .obj _ (List.forall_mem_singleton.mpr (.singleton _))
        (List.forall_mem_singleton.mpr (.obj _ (List.forall_mem_singleton.mpr (.singleton _))
          (List.forall_mem_singleton.mpr .null))))
    hfirst
    hcalls
    hlast rfl (by
      refine List.forall_mem_singleton.mpr ?_
      decide) with ⟨again, hagain, _, halike, hfound⟩
  exact ⟨first, store, _, hfirst, hlast, rfl, again, hagain, halike,
    hfound [] "s.c" value [.save] rfl (List.forall_mem_singleton.mpr trivial)⟩

/-- A host without files. -/
def noFiles : Host := .ofFiles ⟨[]⟩

/-- A value that is set under a key and written is not read back as it is. -/
def Loses (key : Text) (value : Json) : Prop :=
  ∃ first store last, load oneFresh noFiles = (first, .ok ())
    ∧ follow (first, noFiles) [.set key value, .save] = .ok (store, last)
    ∧ store.dirty = false
    ∧ ¬ ∃ again, load oneFresh last = (again, .ok ())
        ∧ Json.alike (Sections.toJson again.data) (Sections.toJson store.data) = true

/-- A list in the one section there are defaults for. -/
def oneList (items : List Json) : Sections := [("s", .ofFields [("a", .arr items)])]

theorem oneList_storable {items : List Json} (h : (Json.arr items).Storable) :
    (oneList items).Storable := by
  have hvalue : (Json.obj [("a", .arr items)]).Storable := (Json.storable_obj_iff _).mpr
    ⟨List.nodup_singleton _, List.forall_mem_singleton.mpr ⟨.singleton _, h⟩⟩
  exact oneDefault_storable.put (.singleton 's') hvalue

/-- A list that is nested too deep to be taken over, but not to be read, is read and not
    taken over. -/
theorem load_of_deep {items : List Json} (h : (Json.arr items).Storable)
    (hdeep : maxDepth < (Json.obj [("a", .arr items)]).depth)
    (hdepth : (Json.obj [("a", .arr items)]).depth < Json.maxNesting) :
    let host := Host.holding "s.json" (Utf8.encode (Sections.toJson (oneList items)).print)
    ∃ stored, oneFresh.readFile host = .ok stored
      ∧ Json.obj stored = (Sections.toJson (oneList items)).sorted
      ∧ load oneFresh host = (oneFresh, .error .tooDeep) := by
  intro host
  have hdata := oneList_storable h
  have hobject : (Sections.toJson (oneList items)).depth ≤ Json.maxNesting :=
    (Json.depth_obj_le_iff _ _).mpr (List.forall_mem_singleton.mpr (Nat.le_of_lt_succ hdepth))
  rcases parse_print hdata hobject with ⟨stored, hparse, hstored⟩
  have hread : oneFresh.readFile host = .ok stored := hparse
  have hshallow : oneDefault.Shallow := List.forall_mem_singleton.mpr (by decide)
  have hfits := fits_iff_of_sorted hshallow hdata rfl (hstored ▸ hdata.value.sorted)
    (by rw [hstored, Json.sorted_sorted])
  refine ⟨stored, hread, hstored, ?_⟩
  rw [load_of_readFile rfl hread]
  exact if_neg (mt hfits.mp fun hall =>
    absurd (hall _ List.mem_cons_self) (Nat.not_le_of_lt hdeep))

-- A list that is nested too deep to be taken over can still be written.
theorem loses_of_deep {items : List Json} (h : (Json.arr items).Storable)
    (hdeep : maxDepth < (Json.obj [("a", .arr items)]).depth)
    (hdepth : (Json.obj [("a", .arr items)]).depth < Json.maxNesting) :
    Loses "s.a" (.arr items) := by
  let first : SettingsStore := { oneFresh with data := oneDefault, dirty := true }
  let changed : SettingsStore := { oneFresh with data := oneList items, dirty := true }
  let last : Host := .holding "s.json" (Utf8.encode (Sections.toJson changed.data).print)
  have hfirst : load oneFresh noFiles = (first, .ok ()) := by cbv
  have hset : first.set "s.a" (.arr items) = (changed, .ok true) := rfl
  have hpayload : changed.payload? = some (Sections.toJson changed.data).print :=
    Sections.print?_eq (oneList_storable h).texts
  have hsave : changed.save noFiles = ({ changed with dirty := false }, last, .ok ()) := by
    unfold save
    rw [if_neg (show ¬ (!changed.persistent) = true from Bool.false_ne_true), hpayload]
    rfl
  refine ⟨first, { changed with dirty := false }, last, hfirst, ?_, rfl, ?_⟩
  · simp only [follow, after, hset, hsave]
  rintro ⟨again, hload, _⟩
  rcases load_of_deep h hdeep hdepth with ⟨_, _, _, hfails⟩
  exact absurd (Prod.mk.inj (hfails.symm.trans hload)).2
    (by simp only [reduceCtorEq, not_false_eq_true])

/-- Lists inside of each other. -/
def nested : Nat → Json
  | 0 => .null
  | n + 1 => .arr [nested n]

theorem depth_nested (n : Nat) : (nested n).depth = n := by
  induction n with
  | zero => rfl
  | succ n ih => rw [nested, Json.depth, Json.itemsDepth, Json.itemsDepth, ih, Nat.max_zero]

theorem nested_storable (n : Nat) : (nested n).Storable := by
  induction n with
  | zero => exact ⟨.null, .null⟩
  | succ n ih =>
      exact ⟨.arr _ (List.forall_mem_singleton.mpr ih.regular),
        .arr _ (List.forall_mem_singleton.mpr ih.faithful)⟩

/-- Settings that count as unchanged need not be what is read. An object that is set for
    a whole section comes back with the defaults beside it, two units of a pair come
    back as one character, and lists that are nested too deep do not come back. -/
theorem unchanged_reload_fails :
    Loses "s." (.obj [("x", .int 1)])
      ∧ Loses "s.a" (.str [Unpaired.standIn 0xd83d, Unpaired.standIn 0xde00])
      ∧ Loses "s.a" (nested 500) := by
  let first : SettingsStore := { oneFresh with data := oneDefault, dirty := true }
  have hfirst : load oneFresh noFiles = (first, .ok ()) := by cbv
  refine ⟨?_, ?_, ?_⟩
  · let store : SettingsStore := { oneFresh with data := [("s", .ofFields [("x", .int 1)])] }
    refine ⟨first, store,
      .holding "s.json" (Utf8.encode (Sections.toJson store.data).print), hfirst, by cbv, rfl, ?_⟩
    rintro ⟨again, hload, halike⟩
    have hread : load oneFresh
        (.holding "s.json" (Utf8.encode (Sections.toJson store.data).print))
          = ({ oneFresh with data := [("s", .ofFields [("a", .int 1), ("x", .int 1)])] },
            .ok ()) := by cbv
    rw [← (Prod.mk.inj (hread.symm.trans hload)).1] at halike
    exact absurd halike (by decide)
  · let store : SettingsStore := { oneFresh with
      data := [("s", .ofFields [("a", .str [Unpaired.standIn 0xd83d, Unpaired.standIn 0xde00])])] }
    refine ⟨first, store,
      .holding "s.json" (Utf8.encode (Sections.toJson store.data).print), hfirst, by cbv, rfl, ?_⟩
    rintro ⟨again, hload, halike⟩
    have hread : load oneFresh
        (.holding "s.json" (Utf8.encode (Sections.toJson store.data).print))
          = ({ oneFresh with data := [("s", .ofFields [("a", .str [Char.ofNat 0x1f600])])] },
            .ok ()) := by cbv
    rw [← (Prod.mk.inj (hread.symm.trans hload)).1] at halike
    exact absurd halike (by decide)
  · have hdepth : (Json.obj [("a", nested 500)]).depth = 501 := by
      rw [Json.depth, Json.fieldsDepth, Json.fieldsDepth, depth_nested, Nat.max_zero]
    exact loses_of_deep (nested_storable 500) (by rw [← nested, hdepth]; decide)
      (by rw [← nested, hdepth]; decide)

end SettingsStore

end QueryDesk
