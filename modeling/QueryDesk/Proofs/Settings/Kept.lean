import QueryDesk.Proofs.Json.Display
import QueryDesk.Proofs.Settings.Course
import QueryDesk.Proofs.Settings.Fit

/-!
# Settings that are saved as they were loaded

What is made fit for use has to stay as it is when it is saved and loaded again. Three
things come together in this. What was made fit comes back from a file: its words are
pieces of texts of the file, or values as they are shown, and its numbers are short.
The defaults are put below it again, and it has a value under every name of theirs.
And it is made fit once more, which changes nothing.

The last one is not for what was made fit alone. Values that were equal to it were
kept as they had been read, so that a limit can still be a fraction or a truth value.
They are saved like that and come back like that, with the fields in another order.
Equality does not see the order, so they are equal to what was made fit in the first
place, and whatever is equal to something fit is kept as it is.

All this is about a file that can be read again. It is written in place with the
permissions it has, and the system may admit that it is written and not that it is
read, so that it does not keep it from being read is asked for.

## Main definitions

* `Settings.sectionAt`: The values of a section.

## Theorems

* `normalized_storable`: What is made of values that come back comes back.
* `load_of_worth`: Settings whose values are worth it stay as they are read.
* `change_fit`: What was made fit in the place of what it was made of.
* `load_sound`: What holds of settings that were loaded.
* `fresh_eq_ok`: Where the settings of a directory are.
* `sectionAt_alike`: Settings with one sorted form have equal sections.
* `kept_through_file`: Settings that were loaded and saved are loaded as they were.
-/

namespace QueryDesk

namespace Settings

open SettingsStore (Sound)

/-! ## What is made fit comes back from a file -/

theorem valueOf_faithful {fields : Table Json} (h : (Json.obj fields).Storable) (name : Text) :
    (valueOf (.ofFields fields) name).Faithful := by
  rw [valueOf_ofFields]
  cases hget : Table.get? name fields with
  | none => exact .null
  | some value => exact (h.of_get? hget).2.faithful

theorem wordOf_separate {fields : Table Json} (h : (Json.obj fields).Storable) (name : Text) :
    (wordOf (.ofFields fields) name).Separate :=
  (Json.word_separate (valueOf_faithful h name)).trim

theorem searchPath_separate {value : Json} (h : value.Faithful) :
    ∀ entry ∈ searchPath value, entry.Separate := by
  have hclean : ∀ entries : List Text, (∀ entry ∈ entries, entry.Separate) →
      ∀ entry ∈ distinct [] (Gopath.clean entries), entry.Separate := by
    intro entries hentries entry hentry
    rw [distinct_nil, List.mem_eraseDups] at hentry
    have hmem := (List.mem_filter.mp hentry).1
    rcases List.mem_map.mp hmem with ⟨t, ht, rfl⟩
    exact (hentries t ht).trim
  cases h with
  | str path separate => exact hclean _ fun entry hentry => separate.of_mem_splitOn hentry
  | arr items inside =>
      exact hclean _ (List.forall_mem_map.mpr fun item hitem =>
        Json.word_separate (inside item hitem))
  | null | bool | int | float | obj => exact fun entry hentry => absurd hentry List.not_mem_nil

theorem orElse_separate {t other : Text} (ht : t.Separate) (hother : other.Separate) :
    (t.orElse other).Separate := by
  unfold Text.orElse
  split
  · exact hother
  · exact ht

theorem int_storable {n : Int} (hlow : 0 ≤ n) (hhigh : n < 1000) : (Json.int n).Storable := by
  refine ⟨.int n ?_, .int n⟩
  have hlength := (Nat.length_toDigits_le_iff (b := 10) (n := n.natAbs) (k := 3) (by decide)
    (by decide)).mpr (by omega)
  rw [Text.isShortNumeral, decide_eq_true_eq, Text.ofNat]
  exact Nat.le_trans hlength (by decide)

/-- What is made of values that come back comes back. -/
theorem normalized_storable {fields table : Table Json} (h : (Json.obj fields).Storable)
    (htable : normalized (.ofFields fields) = .ok table) : (Json.obj table).Storable := by
  have hstr : ∀ {t : Text}, t.Separate → (Json.str t).Storable := fun ht => ⟨.str _, .str _ ht⟩
  have hkey : ∀ name ∈ queryDefaults.map (·.1.written), Text.Separate name := by decide
  rcases normalized_eq_ok htable with ⟨limit, lines, hlimit, hlines, rfl⟩
  have hlimits := boundedInt_bounds (by decide) hlimit
  have hheight := boundedInt_bounds (by decide) hlines
  have hpaths := searchPath_separate (valueOf_faithful h "gopath")
  rw [Json.storable_obj_iff]
  refine ⟨fitted_nodup _ limit lines, ?_⟩
  simp only [queryDefaults, List.map_cons, List.forall_mem_cons] at hkey
  rcases hkey with ⟨kcommand, kgo, kroot, kpath, klimit, klines, kfocus, _⟩
  simp only [fitted, List.forall_mem_cons]
  refine ⟨⟨kcommand, ?_⟩, ⟨kgo, ?_⟩, ⟨kroot, ?_⟩, ⟨kpath, ?_⟩, ⟨klimit, ?_⟩, ⟨klines, ?_⟩,
    ⟨kfocus, ?_⟩, fun _ hmem => absurd hmem List.not_mem_nil⟩
  · exact hstr (orElse_separate (wordOf_separate h _) (by decide))
  · exact hstr (orElse_separate (wordOf_separate h _) (by decide))
  · exact hstr (wordOf_separate h _)
  · refine ⟨.arr _ (List.forall_mem_map.mpr fun entry _ => .str entry),
      .arr _ (List.forall_mem_map.mpr fun entry hentry => .str entry (hpaths entry hentry))⟩
  · exact int_storable (by omega) (by omega)
  · exact int_storable (by omega) (by omega)
  · exact ⟨.bool _, .bool _⟩

theorem normalized_depth {values : Section} {table : Table Json}
    (htable : normalized values = .ok table) : (Json.obj table).depth ≤ 2 := by
  rcases normalized_eq_ok htable with ⟨limit, lines, _, _, rfl⟩
  rw [Json.depth_obj_le_iff]
  simp only [fitted, List.forall_mem_cons]
  refine ⟨Nat.zero_le 1, Nat.zero_le 1, Nat.zero_le 1, ?_, Nat.zero_le 1, Nat.zero_le 1,
    Nat.zero_le 1, fun _ hmem => absurd hmem List.not_mem_nil⟩
  rw [Json.depth_arr_le_iff]
  exact List.forall_mem_map.mpr fun _ _ => Nat.le_refl 0

theorem defaults_storable : defaults.Storable where
  texts := by
    intro entry hentry
    refine Section.exists_ofFields ?_
    revert entry
    decide
  value := by
    have hstr : ∀ t : Text, t.Separate → (Json.str t).Storable := fun t ht => ⟨.str t, .str t ht⟩
    have hqueries : (Section.toJson queryDefaults).Storable := by
      refine (Json.storable_obj_iff _).mpr ⟨by decide, ?_⟩
      simp only [queryDefaults, List.map_cons, List.forall_mem_cons]
      exact ⟨⟨by decide, hstr _ (by decide)⟩, ⟨by decide, hstr _ (by decide)⟩,
        ⟨by decide, hstr _ (by decide)⟩,
        ⟨by decide, .arr _ fun _ h => absurd h List.not_mem_nil,
          .arr _ fun _ h => absurd h List.not_mem_nil⟩,
        ⟨by decide, int_storable (by decide) (by decide)⟩,
        ⟨by decide, int_storable (by decide) (by decide)⟩,
        ⟨by decide, .bool true, .bool true⟩, fun _ h => absurd h List.not_mem_nil⟩
    have hwindow : (Json.obj [("last_open_dir", .str [])]).Storable :=
      (Json.storable_obj_iff _).mpr ⟨by decide, List.forall_mem_singleton.mpr
        ⟨by decide, hstr _ (by decide)⟩⟩
    refine (Json.storable_obj_iff _).mpr ⟨by decide, ?_⟩
    exact List.forall_mem_cons.mpr ⟨⟨by decide, hqueries⟩, List.forall_mem_singleton.mpr
      ⟨by decide, hwindow⟩⟩

/-! ## Settings that are read again -/

theorem split_queries : SettingsKey.split queries = .ok (queries, []) := rfl

theorem normalized_of_worth {values : Section} (h : Worth values) :
    ∃ table, normalized values = .ok table := by
  rcases h.historyLimit with ⟨limit, hlimit, hlow, hhigh⟩
  rcases h.panelLines with ⟨lines, hlines, hlow', hhigh'⟩
  unfold normalized
  rw [boundedInt_of_agrees hlimit hlow hhigh, boundedInt_of_agrees hlines hlow' hhigh']
  exact ⟨_, rfl⟩

/-- Settings whose values are worth it stay as they are read. -/
theorem load_of_worth {settings filled : SettingsStore} {host : Host} {fields : Table Json}
    (hstore : SettingsStore.load settings host = (filled, .ok ()))
    (hvalues : Table.get? queries filled.data = some (.ofFields fields))
    (hnodup : (fields.map (·.1)).Nodup) (hworth : Worth (.ofFields fields)) :
    load settings host = (filled, .ok ()) := by
  rcases normalized_of_worth hworth with ⟨table, htable⟩
  have hconfig : config filled = .ofFields fields := by rw [config, hvalues, Option.getD_some]
  have hset := SettingsStore.set_whole split_queries hvalues table
  rw [if_pos ((agrees_normalized_iff hnodup htable).mpr hworth)] at hset
  unfold load
  simp only [hstore, hconfig, htable, hset]

/-- What was made fit can be put in the place of what it was made of. -/
theorem change_fit {store : SettingsStore} {path : FilePath} {host : Host}
    {fields table : Table Json} (h : Sound path defaults (store, host))
    (hshallow : store.data.Shallow)
    (hvalues : Table.get? queries store.data = some (.ofFields fields))
    (hfields : (Json.obj fields).Storable) (htable : normalized (.ofFields fields) = .ok table) :
    Sound path defaults ({ store with
        data := Table.put queries (.ofFields table) store.data, dirty := true }, host)
      ∧ Sections.Shallow (Table.put queries (.ofFields table) store.data) := by
  constructor
  · refine h.change hvalues (normalized_storable hfields htable) fun base hbase inside hhas => ?_
    -- What is made fit has the names of the defaults.
    rw [← Option.some.inj hbase] at hhas
    rcases hhas with ⟨entry, hentry, hsame⟩
    have hname := (normalized_fit htable).names.mem_iff.mpr (List.mem_map_of_mem hentry)
    rcases List.mem_map.mp hname with ⟨other, hother, heq⟩
    exact ⟨other, hother, heq ▸ hsame⟩
  · intro entry hentry
    rcases Table.mem_of_mem_put hentry with rfl | hentry
    · rw [Section.toJson_ofFields]
      exact Nat.le_trans (normalized_depth htable) (by decide)
    · exact hshallow entry hentry

/-- Settings that were loaded are sound and not nested too deep, and the values of the
    queries' section are equal to something that was made fit. -/
theorem load_sound {settings loaded : SettingsStore} {host : Host}
    (hsections : settings.defaults = defaults) (hpersistent : settings.persistent = true)
    (hstart : host.files.kind? (FileTree.startOf host.workDir settings.path.text)
      = some .directory)
    (hreads : host.refusals.Admits Attempt.Reads)
    (hfile : ∀ stored, settings.readFile host = .ok stored → (Json.obj stored).Storable)
    (h : load settings host = (loaded, .ok ())) :
    Sound settings.path defaults (loaded, host) ∧ loaded.data.Shallow
      ∧ ∃ fields values table, Table.get? queries loaded.data = some (.ofFields fields)
        ∧ (Json.obj fields).Storable ∧ normalized values = .ok table
        ∧ Section.agrees (.ofFields fields) (.obj table) = true := by
  unfold load at h
  split at h
  · exact absurd (Prod.mk.inj h).2 (by simp only [reduceCtorEq, not_false_eq_true])
  next filled hstore =>
  have hsound := SettingsStore.sound_filled rfl hsections hpersistent defaults_storable hstart
    hreads hfile hstore
  have hshallow : filled.data.Shallow := by
    rcases SettingsStore.load_eq_ok hstore with ⟨stored, dirty, loadError, _, hfits, rfl⟩
    exact SettingsStore.withDefaults_shallow (hsections ▸ defaults_storable) hfits
  have hthere : queries ∈ filled.data.map (·.1) := by
    rw [hsound.covers.names]
    exact List.mem_cons_self
  rcases Table.get?_of_mem_keys hthere with ⟨values, hvalues⟩
  rcases hsound.data.of_get? hvalues with ⟨fields, rfl, hname, hfields⟩
  have hconfig : config filled = .ofFields fields := by rw [config, hvalues, Option.getD_some]
  rw [hconfig] at h
  split at h
  · exact absurd (Prod.mk.inj h).2 (by simp only [reduceCtorEq, not_false_eq_true])
  next table htable =>
  have hset := SettingsStore.set_whole split_queries hvalues table
  by_cases hagrees : Section.agrees (.ofFields fields) (.obj table) = true
  · rw [if_pos hagrees] at hset
    rw [hset] at h
    rw [← (Prod.mk.inj h).1]
    exact ⟨hsound, hshallow, fields, _, table, hvalues, hfields, htable, hagrees⟩
  · rw [if_neg hagrees] at hset
    rw [hset] at h
    rw [← (Prod.mk.inj h).1]
    have hstorable := normalized_storable hfields htable
    rcases change_fit hsound hshallow hvalues hfields htable with ⟨hright, hflat⟩
    refine ⟨hright, hflat, table, _, table, ?_, hstorable, htable, ?_⟩
    · rw [Table.get?_put, if_pos rfl]
    · rw [Section.agrees_ofFields, ← Json.alike_eq_agrees rfl]
      exact Json.alike_refl hstorable.regular

/-! ## Managers -/

/-- Settings that have not been read yet have the defaults, and a file with an absolute
    path. -/
theorem fresh_eq_ok {host : Host} {directory : Option Text} {name : Text} {persistent : Bool}
    {settings : SettingsStore} (h : Settings.fresh host directory name persistent = .ok settings) :
    settings = SettingsStore.fresh settings.path defaults persistent
      ∧ Path.isAbsolute settings.path.text = true := by
  unfold Settings.fresh at h
  simp only at h
  split at h
  · exact absurd h (by simp only [reduceCtorEq, not_false_eq_true])
  next directory _ =>
  split at h
  · exact absurd h (by simp only [reduceCtorEq, not_false_eq_true])
  next paths hpaths =>
  rw [← Except.ok.inj h]
  refine ⟨rfl, ?_⟩
  unfold SettingsPaths.resolve at hpaths
  split at hpaths
  · exact absurd hpaths (by simp only [reduceCtorEq, not_false_eq_true])
  split at hpaths
  · exact absurd hpaths (by simp only [reduceCtorEq, not_false_eq_true])
  next real hreal =>
  have habsolute := host.realPath_isAbsolute _ real (host.resolve_eq_realPath _ real hreal)
  rw [← Except.ok.inj hpaths]
  simp only [SettingsStore.fresh, FilePath.append, FilePath.text]
  split
  · next hslashes => exact Path.isAbsolute_write _ _ hslashes
  · refine Path.isAbsolute_write _ _ ?_
    rcases Path.leadingSlashes_of_isAbsolute real habsolute with hslashes | hslashes
    all_goals
      rw [FilePath.parse, hslashes]
      exact Nat.zero_lt_succ _

theorem save_ok {settings saved : SettingsStore} {host after : Host} {onlyDirty : Bool}
    (h : save settings host onlyDirty = (saved, after, .ok true)) :
    SettingsStore.save settings host = (saved, after, .ok ()) := by
  unfold save at h
  split at h
  · exact absurd (Prod.mk.inj (Prod.mk.inj h).2).2
      (by simp only [Except.ok.injEq, reduceCtorEq, not_false_eq_true])
  split at h
  · exact absurd (Prod.mk.inj (Prod.mk.inj h).2).2
      (by simp only [reduceCtorEq, not_false_eq_true])
  next heq =>
  rcases Prod.mk.inj h with ⟨rfl, hrest⟩
  rcases Prod.mk.inj hrest with ⟨rfl, _⟩
  exact heq

/-- The values of a section, none when it is missing. -/
def sectionAt (settings : SettingsStore) (name : Text) : Section :=
  (Table.get? name settings.data).getD []

/-- Settings with one sorted form have equal sections. -/
theorem sectionAt_alike {settings others : SettingsStore} (hsettings : settings.data.Storable)
    (hothers : others.data.Storable)
    (h : (Sections.toJson others.data).sorted = (Sections.toJson settings.data).sorted)
    (name : Text) :
    (Section.toJson (sectionAt others name)).alike (Section.toJson (sectionAt settings name))
      = true := by
  rw [sectionAt, sectionAt]
  cases hvalues : Table.get? name settings.data with
  | none =>
      rw [hsettings.get?_none_of_sorted hothers h hvalues]
      rfl
  | some values =>
      rcases hsettings.of_get? hvalues with ⟨fields, rfl, _, hfields⟩
      rcases hsettings.get?_of_sorted hothers h hvalues with
        ⟨otherFields, hother, hotherFields, hsorted⟩
      rw [hother, Option.getD_some, Option.getD_some, Section.toJson_ofFields,
        Section.toJson_ofFields]
      exact Json.alike_of_sorted hfields.regular hotherFields.regular hsorted
        (Json.alike_refl hfields.regular)

/-- Settings that were loaded and saved are read back as equal settings by a manager that
    has read nothing yet. Nothing is wrong with the file then, and there is nothing to
    save. The system does not keep the file from being read. Of what is in it first it is
    only asked that its fractions come back from their digits; its texts keep units apart as
    every text does that is read, unless the file has characters of the block that the
    stand-ins are from. -/
theorem kept_through_file {earlier host after : Host} {directory : Option Text} {name : Text}
    {manager loaded saved : SettingsStore} {onlyDirty : Bool}
    (hmanager : Settings.fresh earlier directory name true = .ok manager)
    (data : Sections) (dirty : Bool) (loadError : Option LoadError)
    (hreads : host.refusals.Admits Attempt.Reads)
    (hfile : ∀ stored, manager.readFile host = .ok stored → (Json.obj stored).Faithful)
    (hload : load { manager with data, dirty, loadError } host = (loaded, .ok ()))
    (hsave : save loaded host onlyDirty = (saved, after, .ok true)) :
    ∃ again, load manager after = (again, .ok ())
      ∧ (Section.toJson (config again)).alike (Section.toJson (config loaded)) = true
      ∧ (Section.toJson (sectionAt again "window")).alike
          (Section.toJson (sectionAt loaded "window")) = true
      ∧ loadMessage again = [] ∧ again.dirty = false
      ∧ ∀ later, save again later true = (again, later, .ok false) := by
  rcases fresh_eq_ok hmanager with ⟨hfresh, habsolute⟩
  have hstart : host.files.kind? (FileTree.startOf host.workDir manager.path.text)
      = some .directory := by
    rw [FileTree.startOf, if_pos habsolute]
    exact host.files.kind?_root
  have hstorable : ∀ stored, manager.readFile host = .ok stored → (Json.obj stored).Storable :=
    fun stored hstored => ⟨SettingsStore.regular_of_readFile hstored, hfile stored hstored⟩
  have hshallow : defaults.Shallow :=
    ((SettingsStore.fits_iff defaults []).mp (by decide)).1
  have hdefaults : manager.defaults = defaults := by
    rw [hfresh]
    rfl
  have hpersistent : manager.persistent = true := by
    rw [hfresh]
    rfl
  rcases load_sound (show ({ manager with data, dirty, loadError } : SettingsStore).defaults
    = defaults from hdefaults) hpersistent hstart hreads hstorable hload with
    ⟨hsound, hdepth, fields, values, table, hvalues, hfields, htable, hagrees⟩
  rcases hsound.read_saved defaults_storable hshallow (save_ok hsave) hdepth with
    ⟨again, hread, hclean, hright, hagain, hsorted⟩
  rcases hsound.data.get?_of_sorted hagain hsorted hvalues with
    ⟨againFields, hagainValues, hagainFields, hsame⟩
  have hworth : Worth (.ofFields againFields) := by
    refine worth_of_agrees hagainFields.nodup htable ?_
    rw [Section.agrees_ofFields, ← Json.alike_eq_agrees rfl] at hagrees ⊢
    exact Json.alike_of_sorted hfields.regular hagainFields.regular hsame hagrees
  have hloaded := load_of_worth hread hagainValues hagainFields.nodup hworth
  have halike := sectionAt_alike hsound.data hagain hsorted
  rw [← hfresh] at hloaded
  refine ⟨again, hloaded, halike queries, halike "window", ?_, hclean, fun later => ?_⟩
  · rw [loadMessage, hright]
    rfl
  · rw [save, hclean]
    rfl

/-- A search path that is a text with blanks and a repetition, and a number that is not
    equal to itself. -/
theorem kept_through_file_odd :
    let host := Host.holding "settings.json" (Utf8.encode
      "\x7b\"oracle\": \x7b\"gopath\": \"/a: /b :/a\"\x7d, \"window\": \x7b\"n\": NaN\x7d\x7d")
    let manager := SettingsStore.fresh (FilePath.parse "/settings.json") defaults true
    ∃ loaded saved after, load manager host = (loaded, .ok ())
      ∧ save loaded host true = (saved, after, .ok true)
      ∧ ∃ again, load manager after = (again, .ok ())
        ∧ (Section.toJson (config again)).alike (Section.toJson (config loaded)) = true
        ∧ (Section.toJson (sectionAt again "window")).alike
            (Section.toJson (sectionAt loaded "window")) = true
        ∧ loadMessage again = [] ∧ again.dirty = false
        ∧ ∀ later, save again later true = (again, later, .ok false) := by
  intro host manager
  let stored : Table Json := [
    ("oracle", .obj [("gopath", .str "/a: /b :/a")]), ("window", .obj [("n", .float .nan)])]
  let table : Table Json := [
    ("command", .str "oracle"), ("go_command", .str "go"), ("goroot", .str []),
    ("gopath", .arr [.str "/a", .str "/b"]), ("history_limit", .int 32),
    ("panel_max_lines", .int 20), ("focus_panel", .bool true)]
  let loaded : SettingsStore := { manager with
    data := [(queries, .ofFields table),
      ("window", .ofFields [("last_open_dir", .str []), ("n", .float .nan)])]
    dirty := true }
  have hmanager : Settings.fresh host (some "/") "settings.json" true = .ok manager := by cbv
  have hread : manager.readFile host = .ok stored := by cbv
  have hload : load manager host = (loaded, .ok ()) := by cbv
  have hpayload : loaded.payload? = some (Sections.toJson loaded.data).print :=
    Sections.print?_eq (List.forall_mem_cons.mpr
      ⟨⟨table, rfl⟩, List.forall_mem_singleton.mpr ⟨_, rfl⟩⟩)
  have hsave : save loaded host true = ({ loaded with dirty := false },
      .holding "settings.json" (Utf8.encode (Sections.toJson loaded.data).print), .ok true) := by
    unfold save SettingsStore.save
    rw [if_neg (show ¬ (!loaded.persistent) = true from Bool.false_ne_true), hpayload]
    rfl
  have hfaithful : (Json.obj stored).Faithful := by
    have hpath : (Json.obj [("gopath", .str "/a: /b :/a")]).Faithful :=
      .obj _ (List.forall_mem_singleton.mpr (by decide))
        (List.forall_mem_singleton.mpr (.str _ (by decide)))
    have hnan : (Json.obj [("n", .float .nan)]).Faithful :=
      .obj _ (List.forall_mem_singleton.mpr (by decide))
        (List.forall_mem_singleton.mpr (.float _ rfl))
    exact .obj _ (List.forall_mem_cons.mpr ⟨by decide, List.forall_mem_singleton.mpr (by decide)⟩)
      (List.forall_mem_cons.mpr ⟨hpath, List.forall_mem_singleton.mpr hnan⟩)
  exact ⟨loaded, _, _, hload, hsave, kept_through_file hmanager [] false none
    (Refusals.admits_none _)
    (fun other hother => Except.ok.inj (hread.symm.trans hother) ▸ hfaithful) hload hsave⟩

end Settings

end QueryDesk
