import QueryDesk.Proofs.Repeats
import QueryDesk.Proofs.Settings.Loading
import QueryDesk.Proofs.Settings.Section
import QueryDesk.Proofs.Text.Trim

/-!
# Settings that are fit for use

What is read is made fit for use and put in place of what was read, unless the two
are equal. Equality takes numbers by what they are worth, so a limit that is written
with a fraction of zero and a switch that is a number stay as they are when nothing
else has to be made fit. Then every value is only worth what is fit for use.

This is told once for both: `FitBy` says what the values of the queries' section
have to be, where numbers and the switch are compared by a relation. With equality
it says that the values are fit, with the equality of settings that they are worth
it. Values are equal to what is made of them just when they are worth it.

## Main definitions

* `Text.Proper`: A text that is not empty and has no blanks around it.
* `Settings.FitBy`: The values are fit for use up to a relation.
* `Settings.Fit`, `Settings.Worth`: They are fit, or equal to values that are.

## Theorems

* `Settings.normalized_fit`: What is made fit is fit.
* `Settings.agrees_normalized_iff`: Values are equal to what is made of them just
  when they are worth it.
* `Settings.load_fit_iff`: Settings that were loaded are worth it, and they are fit
  unless what was read is worth it only.
* `Settings.limit_kept_as_truth_value`: A file with a limit that stays no integer.
-/

namespace QueryDesk

/-! ## Texts and lists of texts -/

namespace Text

/-- The text is not empty and has no blanks around it. -/
structure Proper (t : Text) : Prop where
  trimmed : trim t = t
  not_empty : t ≠ []

theorem proper_orElse (t : Text) {other : Text} (h : Proper other) :
    Proper ((trim t).orElse other) := by
  unfold orElse
  split
  · exact h
  · next hrest => exact ⟨trim_trim t, fun hnil => hrest (List.isEmpty_iff.mpr hnil)⟩

theorem Proper.orElse_self {t : Text} (h : Proper t) (other : Text) :
    (trim t).orElse other = t := by
  rw [h.trimmed, orElse, if_neg (mt List.isEmpty_iff.mp h.not_empty)]

end Text

namespace Gopath

theorem proper_of_mem_clean {entries : List Text} {entry : Text} (h : entry ∈ clean entries) :
    entry.Proper := by
  rcases List.mem_filter.mp h with ⟨hmem, hrest⟩
  rcases List.mem_map.mp hmem with ⟨t, _, rfl⟩
  exact ⟨Text.trim_trim t, fun hnil => by rw [hnil] at hrest; exact absurd hrest (by decide)⟩

theorem clean_of_proper {entries : List Text} (h : ∀ entry ∈ entries, entry.Proper) :
    clean entries = entries := by
  have hmap : entries.map Text.trim = entries :=
    (List.map_congr_left fun entry hmem => (h entry hmem).trimmed).trans (List.map_id entries)
  rw [clean, hmap, List.filter_eq_self]
  intro entry hmem
  rw [Bool.not_eq_true', Bool.eq_false_iff]
  exact mt List.isEmpty_iff.mp (h entry hmem).not_empty

end Gopath

/-! ## Numbers and switches by what they are worth -/

namespace Binary64

theorem units_eq_zero_iff (mantissa shift : Nat) : units mantissa shift = 0 ↔ mantissa = 0 := by
  rw [units, Nat.shiftLeft_eq, Nat.mul_eq_zero, or_iff_left (Nat.two_pow_pos shift).ne']

theorem unitParts_pos : 0 < unitParts := by
  rw [unitParts, Nat.shiftLeft_eq, Nat.one_mul]
  exact Nat.two_pow_pos unitPlaces

/-- A number that is worth an integer has nothing to cut off. -/
theorem truncate_of_sameInt {negative : Bool} {mantissa shift : Nat} {n : Int}
    (h : (finite negative mantissa shift).sameInt n = true) :
    truncate negative mantissa shift = n := by
  rw [sameInt, Bool.and_eq_true, beq_iff_eq, Bool.or_eq_true, beq_iff_eq, beq_iff_eq] at h
  rcases h with ⟨hunits, hsign⟩
  rw [truncate, hunits, Nat.mul_div_cancel _ unitParts_pos]
  rcases hsign with hzero | hsign
  · have hn : n.natAbs * unitParts = 0 := by rw [← hunits, units_eq_zero_iff, hzero]
    have hn' := (Nat.mul_eq_zero.mp hn).resolve_right unitParts_pos.ne'
    rw [Int.natAbs_eq_zero.mp hn']
    exact ite_self 0
  · rw [hsign]
    by_cases hneg : n < 0
    · rw [if_pos (decide_eq_true hneg), Int.ofNat_natAbs_of_nonpos (Int.le_of_lt hneg), Int.neg_neg]
    · rw [if_neg (mt of_decide_eq_true hneg), Int.natAbs_of_nonneg (Int.not_lt.mp hneg)]

theorem isZero_of_sameInt {x : Binary64} {n : Int} (h : x.sameInt n = true) :
    x.isZero = (n == 0) := by
  cases x with
  | nan | infinity _ => exact absurd h Bool.false_ne_true
  | finite negative mantissa shift =>
      rw [sameInt, Bool.and_eq_true, beq_iff_eq] at h
      rw [isZero, Bool.eq_iff_iff, beq_iff_eq, beq_iff_eq, ← units_eq_zero_iff mantissa shift, h.1,
        Nat.mul_eq_zero, or_iff_left unitParts_pos.ne', Int.natAbs_eq_zero]

end Binary64

namespace Json

theorem toInt_of_agrees {value : Json} {n : Int} (h : agrees value (.int n) = true) :
    value.toInt = .ok n := by
  cases value with
  | bool b => exact congrArg Except.ok (beq_iff_eq.mp h)
  | int m => exact congrArg Except.ok (beq_iff_eq.mp h)
  | float x =>
      cases x with
      | nan | infinity _ => exact absurd h Bool.false_ne_true
      | finite negative mantissa shift =>
          exact congrArg Except.ok (Binary64.truncate_of_sameInt h)
  | null | str _ | arr _ | obj _ => exact absurd h Bool.false_ne_true

theorem truthy_of_agrees {value : Json} {b : Bool} (h : agrees value (.bool b) = true) :
    value.truthy = b := by
  cases value with
  | bool b' => exact beq_iff_eq.mp h
  | int n =>
      rw [truthy, beq_iff_eq.mp h]
      cases b <;> rfl
  | float x =>
      rw [truthy, Binary64.isZero_of_sameInt h]
      cases b <;> rfl
  | null | str _ | arr _ | obj _ => exact absurd h Bool.false_ne_true

theorem agrees_int_self (n : Int) : agrees (.int n) (.int n) = true :=
  beq_self_eq_true n

theorem agrees_bool_self (b : Bool) : agrees (.bool b) (.bool b) = true :=
  beq_self_eq_true b

theorem word_str (t : Text) : (Json.str t).word = t := by
  cases t with
  | nil => rfl
  | cons c rest => rfl

theorem words_of_texts (texts : List Text) : (texts.map Json.str).map Json.word = texts := by
  rw [List.map_map]
  exact (List.map_congr_left fun t _ => word_str t).trans (List.map_id texts)

end Json

namespace Settings

/-! ## Values that are fit -/

/-- The values of the queries' section are fit for use, where numbers and the switch
    only have to be related to ones that are. -/
structure FitBy (same : Json → Json → Prop) (values : Section) : Prop where
  names : (values.map (·.1)).Perm (queryDefaults.map (·.1))
  command : ∃ t, valueOf values "command" = .str t ∧ t.Proper
  goCommand : ∃ t, valueOf values "go_command" = .str t ∧ t.Proper
  root : ∃ t, valueOf values "goroot" = .str t ∧ t.trim = t
  searchPath : ∃ entries : List Text, valueOf values "gopath" = .arr (entries.map .str)
    ∧ entries.Nodup ∧ ∀ entry ∈ entries, entry.Proper
  historyLimit : ∃ n, same (valueOf values "history_limit") (.int n) ∧ 1 ≤ n ∧ n ≤ 500
  panelLines : ∃ n, same (valueOf values "panel_max_lines") (.int n) ∧ 3 ≤ n ∧ n ≤ 200
  focusPanel : ∃ b, same (valueOf values "focus_panel") (.bool b)

/-- The values are fit for use. -/
abbrev Fit (values : Section) : Prop :=
  FitBy (· = ·) values

/-- The values are equal, as settings, to values that are fit for use. -/
abbrev Worth (values : Section) : Prop :=
  FitBy (fun value other => value.agrees other = true) values

theorem Fit.worth {values : Section} (h : Fit values) : Worth values where
  names := h.names
  command := h.command
  goCommand := h.goCommand
  root := h.root
  searchPath := h.searchPath
  historyLimit := by
    rcases h.historyLimit with ⟨n, hn, hbounds⟩
    exact ⟨n, hn ▸ Json.agrees_int_self n, hbounds⟩
  panelLines := by
    rcases h.panelLines with ⟨n, hn, hbounds⟩
    exact ⟨n, hn ▸ Json.agrees_int_self n, hbounds⟩
  focusPanel := by
    rcases h.focusPanel with ⟨b, hb⟩
    exact ⟨b, hb ▸ Json.agrees_bool_self b⟩

/-! ## What is made fit -/

theorem boundedInt_bounds {value : Json} {default low high n : Int} (hle : low ≤ high)
    (h : boundedInt value default low high = .ok n) : low ≤ n ∧ n ≤ high := by
  have hbounds : ∀ m : Int, low ≤ max low (min high m) ∧ max low (min high m) ≤ high := fun m =>
    ⟨Int.le_max_left _ _, Int.max_le.mpr ⟨hle, Int.min_le_left _ _⟩⟩
  unfold boundedInt at h
  split at h
  · exact Except.ok.inj h ▸ hbounds _
  · exact absurd h (by simp only [reduceCtorEq, not_false_eq_true])
  · exact Except.ok.inj h ▸ hbounds _

theorem boundedInt_of_agrees {value : Json} {default low high n : Int}
    (h : value.agrees (.int n) = true) (hlow : low ≤ n) (hhigh : n ≤ high) :
    boundedInt value default low high = .ok n := by
  rw [boundedInt, Json.toInt_of_agrees h]
  simp only [Int.min_eq_right hhigh, Int.max_eq_right hlow]

/-- The entries that were not met before are kept at their first places. -/
theorem distinct_eq_eraseDups (seen entries : List Text) :
    distinct seen entries = (entries.filter (!seen.contains ·)).eraseDups := by
  induction entries generalizing seen with
  | nil => rfl
  | cons entry rest ih =>
      rw [distinct, List.filter_cons]
      by_cases hmet : seen.contains entry = true
      · rw [if_pos hmet, hmet, ih]
        rfl
      · have hnew : (!seen.contains entry) = true := by
          rwa [Bool.not_eq_true', ← Bool.not_eq_true]
        rw [if_neg hmet, if_pos hnew, ih]
        exact (eraseDups_cons_filter (fun _ => true) seen entry rest).symm

theorem distinct_nil (entries : List Text) : distinct [] entries = entries.eraseDups := by
  rw [distinct_eq_eraseDups]
  exact congrArg List.eraseDups (List.filter_eq_self.mpr fun _ _ => rfl)

theorem searchPath_proper (value : Json) :
    (searchPath value).Nodup ∧ ∀ entry ∈ searchPath value, entry.Proper := by
  have hclean : ∀ entries : List Text, (distinct [] (Gopath.clean entries)).Nodup
      ∧ ∀ entry ∈ distinct [] (Gopath.clean entries), entry.Proper := by
    intro entries
    rw [distinct_nil]
    exact ⟨eraseDups_nodup _, fun entry hmem =>
      Gopath.proper_of_mem_clean (List.mem_eraseDups.mp hmem)⟩
  cases value with
  | str path => exact hclean (Text.splitOn ':' path)
  | arr items => exact hclean (items.map Json.word)
  | null | bool _ | int _ | float _ | obj _ =>
      exact ⟨List.nodup_nil, fun _ h => absurd h List.not_mem_nil⟩

theorem searchPath_of_proper {entries : List Text} (hnodup : entries.Nodup)
    (hproper : ∀ entry ∈ entries, entry.Proper) :
    searchPath (.arr (entries.map .str)) = entries := by
  rw [searchPath, Json.words_of_texts, Gopath.clean_of_proper hproper, distinct_nil,
    eraseDups_of_nodup hnodup]

/-- The values that are made of a section, with the two numbers within their
    bounds. -/
def fitted (values : Section) (limit lines : Int) : Table Json := [
  ("command", .str ((wordOf values "command").orElse "oracle")),
  ("go_command", .str ((wordOf values "go_command").orElse "go")),
  ("goroot", .str (wordOf values "goroot")),
  ("gopath", .arr ((searchPath (valueOf values "gopath")).map .str)),
  ("history_limit", .int limit),
  ("panel_max_lines", .int lines),
  ("focus_panel", .bool ((Section.get? "focus_panel" values).getD (.bool true)).truthy)]

theorem fitted_nodup (values : Section) (limit lines : Int) :
    ((fitted values limit lines).map (·.1)).Nodup := by
  simp only [fitted, List.map_cons, List.map_nil]
  decide

theorem fitted_not_nan (values : Section) (limit lines : Int) :
    ∀ entry ∈ fitted values limit lines, entry.2.isNan = false := by
  simp only [fitted, List.forall_mem_cons, Json.isNan, List.not_mem_nil, false_implies,
    implies_true, and_self]

theorem normalized_eq_ok {values : Section} {table : Table Json}
    (h : normalized values = .ok table) :
    ∃ limit lines, boundedInt (valueOf values "history_limit") 32 1 500 = .ok limit
      ∧ boundedInt (valueOf values "panel_max_lines") 20 3 200 = .ok lines
      ∧ table = fitted values limit lines := by
  unfold normalized at h
  split at h
  · exact absurd h (by simp only [reduceCtorEq, not_false_eq_true])
  · exact absurd h (by simp only [reduceCtorEq, not_false_eq_true])
  · next limit lines hlimit hlines => exact ⟨limit, lines, hlimit, hlines, (Except.ok.inj h).symm⟩

/-- What is made fit is fit. -/
theorem normalized_fit {values : Section} {table : Table Json}
    (h : normalized values = .ok table) : Fit (Section.ofFields table) := by
  rcases normalized_eq_ok h with ⟨limit, lines, hlimit, hlines, rfl⟩
  exact {
    names := List.Perm.refl _
    command := ⟨_, rfl, Text.proper_orElse _ ⟨by decide, by decide⟩⟩
    goCommand := ⟨_, rfl, Text.proper_orElse _ ⟨by decide, by decide⟩⟩
    root := ⟨_, rfl, Text.trim_trim _⟩
    searchPath := ⟨_, rfl, searchPath_proper _⟩
    historyLimit := ⟨limit, rfl, boundedInt_bounds (by decide) hlimit⟩
    panelLines := ⟨lines, rfl, boundedInt_bounds (by decide) hlines⟩
    focusPanel := ⟨_, rfl⟩ }

/-! ## What is put in place of what was read -/

theorem valueOf_ofFields (fields : Table Json) (name : Text) :
    valueOf (Section.ofFields fields) name = (Table.get? name fields).getD .null := by
  rw [valueOf, Section.get?_ofFields]

theorem agrees_ofFields_iff {fields table : Table Json} (hnodup : (fields.map (·.1)).Nodup)
    (htable : (table.map (·.1)).Nodup) (hnan : ∀ entry ∈ table, entry.2.isNan = false) :
    Section.agrees (.ofFields fields) (.obj table) = true ↔
      ((Section.ofFields fields).map (·.1)).Perm ((Section.ofFields table).map (·.1))
        ∧ ∀ entry ∈ table, (valueOf (.ofFields fields) entry.1).agrees entry.2 = true := by
  rw [Section.agrees_ofFields, Json.agrees_obj_iff_right hnodup htable, Section.names_ofFields,
    Section.names_ofFields,
    List.map_perm_map_iff fun _ _ heq => SettingName.text.inj heq]
  refine and_congr_right fun hperm => forall₂_congr fun entry hmem => ?_
  rcases Table.get?_of_mem_keys (hperm.mem_iff.mpr (List.mem_map.mpr ⟨entry, hmem, rfl⟩))
    with ⟨value, hvalue⟩
  rw [valueOf_ofFields, hvalue, Option.getD_some, ← Json.alike_eq_agrees (hnan entry hmem)]
  exact ⟨fun ⟨_, heq, h⟩ => Option.some.inj heq ▸ h, fun h => ⟨value, rfl, h⟩⟩

/-- Values that are equal to something that was made fit are worth it. -/
theorem worth_of_agrees {values : Section} {fields table : Table Json}
    (hnodup : (fields.map (·.1)).Nodup) (htable : normalized values = .ok table)
    (h : Section.agrees (.ofFields fields) (.obj table) = true) : Worth (.ofFields fields) := by
  rcases normalized_eq_ok htable with ⟨limit, lines, hlimit, hlines, rfl⟩
  rw [agrees_ofFields_iff hnodup (fitted_nodup values limit lines)
    (fitted_not_nan values limit lines)] at h
  rcases h with ⟨hperm, hvalues⟩
  simp only [fitted, List.forall_mem_cons] at hvalues
  rcases hvalues with ⟨hcommand, hgo, hroot, hpath, hhistory, hpanel, hfocus, _⟩
  exact {
    names := hperm
    command := ⟨_, (Json.agrees_str_iff _ _).mp hcommand,
      Text.proper_orElse _ ⟨by decide, by decide⟩⟩
    goCommand := ⟨_, (Json.agrees_str_iff _ _).mp hgo,
      Text.proper_orElse _ ⟨by decide, by decide⟩⟩
    root := ⟨_, (Json.agrees_str_iff _ _).mp hroot, Text.trim_trim _⟩
    searchPath := ⟨_, (Json.agrees_texts_iff _ _).mp hpath, searchPath_proper _⟩
    historyLimit := ⟨limit, hhistory, boundedInt_bounds (by decide) hlimit⟩
    panelLines := ⟨lines, hpanel, boundedInt_bounds (by decide) hlines⟩
    focusPanel := ⟨_, hfocus⟩ }

/-- Values are equal to what is made of them just when they are worth it. -/
theorem agrees_normalized_iff {fields table : Table Json} (hnodup : (fields.map (·.1)).Nodup)
    (h : normalized (.ofFields fields) = .ok table) :
    Section.agrees (.ofFields fields) (.obj table) = true ↔ Worth (.ofFields fields) := by
  refine ⟨worth_of_agrees hnodup h, fun hworth => ?_⟩
  rcases normalized_eq_ok h with ⟨limit, lines, hlimit, hlines, rfl⟩
  rw [agrees_ofFields_iff hnodup (fitted_nodup _ limit lines) (fitted_not_nan _ limit lines)]
  refine ⟨hworth.names, ?_⟩
  simp only [fitted, List.forall_mem_cons]
  refine ⟨?_, ?_, ?_, ?_, ?_, ?_, ?_, fun _ hmem => absurd hmem List.not_mem_nil⟩
  · rcases hworth.command with ⟨t, ht, hproper⟩
    rw [Json.agrees_str_iff, wordOf, ht, Json.word_str, hproper.orElse_self]
  · rcases hworth.goCommand with ⟨t, ht, hproper⟩
    rw [Json.agrees_str_iff, wordOf, ht, Json.word_str, hproper.orElse_self]
  · rcases hworth.root with ⟨t, ht, htrimmed⟩
    rw [Json.agrees_str_iff, wordOf, ht, Json.word_str, htrimmed]
  · rcases hworth.searchPath with ⟨entries, hentries, hdistinct, hproper⟩
    rw [Json.agrees_texts_iff, hentries, searchPath_of_proper hdistinct hproper]
  · rcases hworth.historyLimit with ⟨n, hn, hlow, hhigh⟩
    rw [Except.ok.inj (hlimit.symm.trans (boundedInt_of_agrees hn hlow hhigh))]
    exact hn
  · rcases hworth.panelLines with ⟨n, hn, hlow, hhigh⟩
    rw [Except.ok.inj (hlines.symm.trans (boundedInt_of_agrees hn hlow hhigh))]
    exact hn
  · rcases hworth.focusPanel with ⟨b, hb⟩
    rw [valueOf] at hb ⊢
    cases hfound : Section.get? "focus_panel" (.ofFields fields) with
    | none =>
        rw [hfound] at hb
        exact absurd hb Bool.false_ne_true
    | some value =>
        rw [hfound, Option.getD_some] at hb
        rw [Option.getD_some, Option.getD_some, Json.truthy_of_agrees hb]
        exact hb

/-- The defaults of the queries' section with what a file has taken over, as the
    fields of an object: no name is there twice. -/
theorem fill_queryDefaults (stored : Option Json) :
    ∃ fields : Table Json, (fields.map (·.1)).Nodup
      ∧ SettingsStore.fill queryDefaults stored = Section.ofFields fields := by
  have htexts : ∀ entry ∈ queryDefaults, entry.1.isText = true := by decide
  rcases Section.exists_ofFields htexts with ⟨own, hown⟩
  have hnodup : (own.map (·.1)).Nodup := by
    have hnames : (queryDefaults.map (·.1)).Nodup := by decide
    rw [hown, Section.names_ofFields] at hnames
    exact hnames.of_map
  unfold SettingsStore.fill
  split
  · next others =>
      rw [hown, Section.update_ofFields]
      exact ⟨_, Table.nodup_update hnodup others, rfl⟩
  · exact ⟨own, hnodup, hown⟩

/-- Settings that were loaded are equal to settings that are fit for use. They are fit
    themselves unless what was read is equal to what is fit without being it: then it
    stays as it was read. -/
theorem load_fit_iff (settings : SettingsStore) (host : Host)
    (hdefaults : settings.defaults = defaults) (hload : (load settings host).2 = .ok ()) :
    ∃ stored, settings.Gives host stored
      ∧ Worth (config (load settings host).1)
      ∧ (Fit (config (load settings host).1) ↔
          (Worth (SettingsStore.fill queryDefaults (Table.get? queries stored))
            → Fit (SettingsStore.fill queryDefaults (Table.get? queries stored)))) := by
  rcases load_eq_ok hload with ⟨filled, table, hstore, hnormalized, hafter⟩
  rcases SettingsStore.load_eq_ok hstore with ⟨stored, dirty, loadError, hgives, _, hfilled⟩
  have hconfig : config filled
      = SettingsStore.fill queryDefaults (Table.get? queries stored) := by
    rw [hfilled, hdefaults]
    rfl
  rcases fill_queryDefaults (Table.get? queries stored) with ⟨fields, hnodup, hfields⟩
  rw [hconfig, hfields] at hnormalized hafter
  have hworth := agrees_normalized_iff hnodup hnormalized
  refine ⟨stored, hgives, ?_⟩
  rw [hfields]
  rcases hafter with ⟨hagrees, hkept⟩ | ⟨hdiffers, hchanged⟩
  · rw [hkept]
    exact ⟨hworth.mp hagrees, fun h _ => h, fun h => h (hworth.mp hagrees)⟩
  · have hfit := normalized_fit hnormalized
    rw [hchanged]
    refine ⟨hfit.worth, fun _ h => ?_, fun _ => hfit⟩
    rw [hworth.mpr h] at hdiffers
    exact absurd hdiffers Bool.false_ne_true.symm

/-- A file in which a limit and a switch are of the wrong kinds: the limit is worth one
    that is fit, the switch is not, and both are made fit. -/
theorem load_fit_word :
    let host := Host.holding "settings.json" (Utf8.encode
      "\x7b\"oracle\": \x7b\"history_limit\": true, \"focus_panel\": \"yes\"\x7d\x7d")
    let settings := SettingsStore.fresh (FilePath.parse "/settings.json") defaults true
    (load settings host).2 = .ok () ∧ Fit (config (load settings host).1) := by
  intro host settings
  let stored : Table Json := [("oracle", .obj [
    ("history_limit", .bool true), ("focus_panel", .str "yes")])]
  have hread : settings.readFile host = .ok stored := by cbv
  have hloaded : (load settings host).2 = .ok () := by cbv
  rcases load_fit_iff settings host rfl hloaded with ⟨found, hgives, _, hfit⟩
  refine ⟨hloaded, hfit.mpr fun hworth => ?_⟩
  rw [hgives.unique rfl hread] at hworth
  rcases hworth.focusPanel with ⟨b, hb⟩
  exact absurd (show Json.agrees (.str "yes") (.bool b) = true from hb) Bool.false_ne_true

/-- A file in which a limit is a truth value, and nothing else. The settings are loaded,
    and the limit is no integer afterwards. -/
theorem limit_kept_as_truth_value :
    let host := Host.holding "settings.json"
      (Utf8.encode "\x7b\"oracle\": \x7b\"history_limit\": true\x7d\x7d")
    let settings := SettingsStore.fresh (FilePath.parse "/settings.json") defaults true
    (load settings host).2 = .ok ()
      ∧ valueOf (config (load settings host).1) "history_limit" = .bool true
      ∧ ¬ Fit (config (load settings host).1) := by
  intro host settings
  have hkept : valueOf (config (load settings host).1) "history_limit" = .bool true := by cbv
  refine ⟨by cbv, hkept, fun hfit => ?_⟩
  rcases hfit.historyLimit with ⟨n, hn, _⟩
  rw [hkept] at hn
  exact absurd hn (by simp only [reduceCtorEq, not_false_eq_true])

end Settings

end QueryDesk
