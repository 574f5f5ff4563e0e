import QueryDesk.Desk.Workbench
import QueryDesk.Proofs.Settings.Filled
import QueryDesk.Proofs.Settings.Fit

/-!
# The search path on its way from the settings file

A search path is cut into entries twice: when the settings are made fit for use, and
when they are taken over. The two agree on what an entry is, whatever values a list
holds, and differ only in that the first leaves out what is repeated. What it makes of a
path is not changed any more by either of them.

Settings are not always put in place of what was read. But where they are not, the path
that was read is equal to what would be made of it, and a list of texts is equal to
itself only.

## Main definitions

* `Json.GivesPath`: A search path is a text or a list.
* `Settings.LoadsPath`: Settings were loaded from a file that has a search path.

## Theorems

* `searchPath_eq_eraseDups`: The two ways to cut a path agree but for what is repeated.
* `split_of_proper`: What was made fit is cut into its entries.
* `load_searchPath`: The search path of settings that were loaded.
* `requestOf_load`: The search path that is asked for.
-/

namespace QueryDesk

/-- A search path is given as a text or as a list of any values. -/
inductive Json.GivesPath : Json → Prop
  | text (path : Text) : GivesPath (.str path)
  | list (items : List Json) : GivesPath (.arr items)

namespace Gopath

/-- What was made fit is cut into its entries. -/
theorem split_of_proper {entries : List Text} (h : ∀ entry ∈ entries, entry.Proper) :
    split (.arr (entries.map .str)) = entries := by
  rw [split, Json.words_of_texts, clean_of_proper h]

end Gopath

namespace Settings

/-- The two ways to cut a search path agree, but for the entries that are repeated. -/
theorem searchPath_eq_eraseDups {value : Json} (h : value.GivesPath) :
    searchPath value = (Gopath.split value).eraseDups := by
  cases h with
  | text path =>
      have hsplit : Gopath.split (.str path) = Gopath.splitText path :=
        congrArg Gopath.splitText (Json.word_str path)
      rw [hsplit]
      exact distinct_nil (Gopath.splitText path)
  | list items => exact distinct_nil (Gopath.clean (items.map Json.word))

/-- Settings of the desk were loaded, and the file they have has a value for the search
    path. -/
structure LoadsPath (settings : SettingsStore) (host : Host) (value : Json) : Prop where
  defaults : settings.defaults = Settings.defaults
  persistent : settings.persistent = true
  stored : settings.stored? host queries (.text "gopath") = some value
  loaded : (load settings host).2 = .ok ()

variable {settings : SettingsStore} {host : Host} {value : Json}

-- What was read comes before the default.
theorem LoadsPath.read (h : LoadsPath settings host value) {filled : SettingsStore}
    (hstore : SettingsStore.load settings host = (filled, .ok ())) :
    valueOf (config filled) "gopath" = value := by
  have hread := (SettingsStore.load_iff_filled settings host h.persistent).2.1
  rw [hstore] at hread
  rcases hread rfl with ⟨there, -, hfilled⟩
  rcases hfilled.values queries queryDefaults (by rw [h.defaults]; rfl) with
    ⟨values, hvalues, hfind⟩
  rw [config, hvalues, Option.getD_some, valueOf, Section.get?, hfind, h.stored, Option.some_or,
    Option.getD_some]

/-- The search path of settings that were loaded is what is made of the one in the file,
    also when they were kept as they had been read. -/
theorem load_searchPath (h : LoadsPath settings host value) :
    valueOf (config (load settings host).1) "gopath" = .arr ((searchPath value).map .str) := by
  rcases load_eq_ok h.loaded with ⟨filled, table, hstore, hnormalized, hafter⟩
  have hread := h.read hstore
  rcases hafter with ⟨hagrees, hkept⟩ | ⟨-, hchanged⟩
  · rcases SettingsStore.load_eq_ok hstore with ⟨stored, dirty, loadError, -, -, hfilled⟩
    rcases fill_queryDefaults (Table.get? queries stored) with ⟨fields, hnodup, hfields⟩
    have hconfig : config filled = Section.ofFields fields := by
      rw [← hfields, hfilled, h.defaults]
      rfl
    rw [hkept, hread]
    rw [hconfig] at hagrees hnormalized hread
    rcases (worth_of_agrees hnodup hnormalized hagrees).searchPath with
      ⟨entries, hentries, hdistinct, hproper⟩
    rw [hread] at hentries
    rw [hentries, searchPath_of_proper hdistinct hproper]
  · rcases normalized_eq_ok hnormalized with ⟨limit, lines, -, -, rfl⟩
    rw [hchanged, valueOf_ofFields, ← hread]
    rfl

/-- The search path that is asked for after settings were loaded is the one that was made
    fit. -/
theorem requestOf_load (h : LoadsPath settings host value) :
    (Workbench.requestOf (config (load settings host).1)).searchPath = searchPath value := by
  rw [Workbench.requestOf, load_searchPath h]
  exact Gopath.split_of_proper (searchPath_proper value).2

end Settings

end QueryDesk
