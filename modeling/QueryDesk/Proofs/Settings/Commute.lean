import QueryDesk.Proofs.Settings.Answered
import QueryDesk.Proofs.Settings.Course
import QueryDesk.Proofs.Settings.Names

/-!
# Values that are set under different keys

Two values in sections that are set one after the other could as well be set the other
way round, if the two keys are not those of one value. Both answers are the same, and
the settings hold the same values under the same names. The order of the sections and of
the names in them can differ, since a name that is new comes last; but a file has them in
an order of its own, so that it is written alike, and everything else that is asked for
is what it was.

What this rests on is that no section is there twice, nor a name in a section. Reading
and setting keep it so.

## Main definitions

* `Sections.Distinct`: No section is there twice, nor a name in one.
* `Sections.Matches`: The same sections in any order, with related values.
* `Sections.putValue`: The sections with a value put under a name in one of them.
* `Sections.settle`: What setting a value leaves of the sections.
* `SettingsStore.Tidy`: No name is there twice in the settings, nor in their defaults.
* `SettingsStore.Apart`: A key that does not ask for a value, nor for its section.

## Theorems

* `set_inside`: What setting a value in a section does, if the section is there or not.
* `tidy_step`, `tidy_follow`: Every call keeps names distinct, and so does a course of
  calls.
* `settle_comm`: Settling values under two keys in either order matches.
* `print?_of_matches`: Sections that match are written alike.
* `set_commutes`: Setting two values in either order comes to the same.
-/

namespace QueryDesk

namespace Section

/-- The same values, or the same in another order with a text among their names. -/
def Shuffles (values others : Section) : Prop :=
  values = others ∨ values.Perm others ∧ ∃ entry ∈ values, entry.1.isText = true

theorem Shuffles.perm {values others : Section} (h : values.Shuffles others) :
    values.Perm others := by
  rcases h with rfl | ⟨hperm, _⟩
  · exact .refl _
  · exact hperm

theorem exists_text_put (name : Text) (value : Json) (values : Section) :
    ∃ entry ∈ put (.text name) value values, entry.1.isText = true := by
  have hname : SettingName.text name ∈ (put (.text name) value values).map (·.1) := by
    induction values with
    | nil => exact List.mem_singleton_self _
    | cons entry values ih =>
        rcases entry with ⟨first, old⟩
        rw [put, SettingName.same_text_right]
        split
        · next hfirst => exact of_decide_eq_true hfirst ▸ List.mem_cons_self
        · exact List.mem_cons_of_mem _ ih
  rcases List.mem_map.mp hname with ⟨entry, hmem, heq⟩
  exact ⟨entry, hmem, heq ▸ rfl⟩

end Section

namespace Sections

variable {sections others : Sections} {sectionName name otherSection otherName : Text}
  {value second : Json}

/-! ## Names that are there once -/

/-- No section is there twice, nor a name in one of them. -/
structure Distinct (sections : Sections) : Prop where
  keys : (sections.map (·.1)).Nodup
  names : ∀ entry ∈ sections, (entry.2.map (·.1)).Nodup

theorem Distinct.getD (h : sections.Distinct) (sectionName : Text) :
    (((Table.get? sectionName sections).getD []).map (·.1)).Nodup := by
  cases hvalues : Table.get? sectionName sections with
  | none => exact List.nodup_nil
  | some values => exact h.names _ (Table.mem_of_get? _ _ _ hvalues)

theorem Distinct.put (h : sections.Distinct) {values : Section}
    (hvalues : (values.map (·.1)).Nodup) (sectionName : Text) :
    Distinct (Table.put sectionName values sections) where
  keys := Table.nodup_put h.keys sectionName values
  names entry hmem := by
    rcases Table.mem_of_mem_put hmem with rfl | hmem
    · exact hvalues
    · exact h.names entry hmem

/-! ## A value put in a section -/

/-- The sections with a value put under a name in one of them, which is made if it is
    missing. -/
def putValue (sectionName name : Text) (value : Json) (sections : Sections) : Sections :=
  Table.put sectionName
    (Section.put (.text name) value ((Table.get? sectionName sections).getD [])) sections

theorem Distinct.putValue (h : sections.Distinct) (sectionName name : Text) (value : Json) :
    Distinct (putValue sectionName name value sections) :=
  h.put (Section.nodup_put (h.getD sectionName) (.text name) value) sectionName

theorem value?_eq_getD (sectionName name : Text) (sections : Sections) :
    value? sectionName name sections
      = Section.get? name ((Table.get? sectionName sections).getD []) := by
  rw [value?]
  cases Table.get? sectionName sections <;> rfl

/-- What is found after a value was put in a section. -/
theorem value?_putValue (sectionName name : Text) (value : Json) (sections : Sections)
    (otherSection otherName : Text) :
    value? otherSection otherName (putValue sectionName name value sections)
      = if sectionName = otherSection ∧ name = otherName then some value
        else value? otherSection otherName sections := by
  rw [value?, value?, putValue, Table.get?_put]
  by_cases hsection : sectionName = otherSection
  · rw [if_pos hsection, Option.bind_some, Section.get?_put_text, ← hsection]
    simp only [true_and]
    refine if_congr Iff.rfl rfl ?_
    cases Table.get? sectionName sections <;> rfl
  · rw [if_neg hsection, if_neg (mt And.left hsection)]

theorem get?_putValue_of_ne (h : sectionName ≠ otherSection) (name : Text) (value : Json)
    (sections : Sections) : Table.get? otherSection (putValue sectionName name value sections)
      = Table.get? otherSection sections := by
  rw [putValue, Table.get?_put, if_neg h]

/-! ## The same sections in another order -/

/-- The same sections in any order, with related values under each name. -/
structure Matches (related : Section → Section → Prop) (sections others : Sections) : Prop where
  keys : (sections.map (·.1)).Perm (others.map (·.1))
  values : ∀ sectionName,
    Option.Rel related (Table.get? sectionName sections) (Table.get? sectionName others)

theorem Matches.refl {related : Section → Section → Prop} (hself : ∀ values, related values values)
    (sections : Sections) : Matches related sections sections where
  keys := .refl _
  values sectionName := by
    cases Table.get? sectionName sections with
    | none => exact .none
    | some values => exact .some (hself values)

theorem Matches.imp {related weaker : Section → Section → Prop}
    (himp : ∀ {values others}, related values others → weaker values others)
    (h : Matches related sections others) : Matches weaker sections others where
  keys := h.keys
  values sectionName := by
    have hvalues := h.values sectionName
    generalize Table.get? sectionName sections = left at hvalues ⊢
    generalize Table.get? sectionName others = right at hvalues ⊢
    cases hvalues with
    | some hrelated => exact .some (himp hrelated)
    | none => exact .none

/-- Values that are put under different names can be put in either order. -/
theorem putValue_comm (h : ¬ (sectionName = otherSection ∧ name = otherName))
    (value second : Json) (sections : Sections) :
    Matches Section.Shuffles
      (putValue sectionName name value (putValue otherSection otherName second sections))
      (putValue otherSection otherName second (putValue sectionName name value sections)) := by
  by_cases hsection : sectionName = otherSection
  · subst hsection
    have hname : name ≠ otherName := fun hname => h ⟨rfl, hname⟩
    -- It is one section that is put twice, so only the names in it can change places.
    simp only [putValue, Table.get?_put, if_true, Option.getD_some, Table.put_put]
    refine ⟨?_, fun otherSection => ?_⟩
    · rw [Table.keys_put, Table.keys_put]
    · rw [Table.get?_put, Table.get?_put]
      split
      · exact .some (Or.inr ⟨Section.put_text_comm hname value second _,
          Section.exists_text_put name value _⟩)
      · exact (Matches.refl (fun _ => Or.inl rfl) sections).values otherSection
  · -- Neither of the sections is seen when the other one is put.
    have hcomm := Table.put_comm hsection
      (Section.put (.text name) value ((Table.get? sectionName sections).getD []))
      (Section.put (.text otherName) second ((Table.get? otherSection sections).getD [])) sections
    have hleft := get?_putValue_of_ne (Ne.symm hsection) otherName second sections
    have hright := get?_putValue_of_ne hsection name value sections
    refine ⟨?_, fun third => ?_⟩
    · rw [putValue, hleft, putValue, putValue, hright, putValue]
      exact hcomm.map _
    · have hsame : Table.get? third
          (putValue sectionName name value (putValue otherSection otherName second sections))
          = Table.get? third (putValue otherSection otherName second
            (putValue sectionName name value sections)) := by
        rw [putValue, hleft, putValue, putValue, hright, putValue]
        exact Table.get?_put_comm hsection _ _ third sections
      rw [hsame]
      exact (Matches.refl (fun _ => Or.inl rfl) _).values third

/-! ## The sections as they are written -/

/-- Every section with the text it makes in a file. -/
def printed (sections : Sections) : Table (Option Text) :=
  sections.map fun entry : Text × Section => (entry.1, Section.printAt? 1 entry.2)

/-- A section with its name before it, if it makes a text. -/
def titled (entry : Text × Option Text) : Option Text :=
  entry.2.map fun part => Json.escape entry.1 ++ ": " ++ part

theorem print?_eq_printed (sections : Sections) :
    sections.print?
      = ((Json.sortByKey sections.printed).mapM titled).map (Json.bracketed 0 '\x7b' '\x7d') := by
  rw [printed, ← Json.map_sortByKey (fun entry => Section.printAt? 1 entry.2) _ (fun _ => rfl),
    List.mapM_map]
  rfl

/-- Sections that match are written alike, or cannot be written. -/
theorem print?_of_matches (hdistinct : sections.Distinct)
    (h : Matches Section.Shuffles sections others) : sections.print? = others.print? := by
  have hkeys : ∀ sections : Sections, sections.printed.map (·.1) = sections.map (·.1) :=
    fun sections => by
      rw [printed, List.map_map]
      rfl
  have hnodup : (sections.printed.map (·.1)).Nodup := by
    rw [hkeys]
    exact hdistinct.keys
  have hothers : (others.printed.map (·.1)).Nodup := by
    rw [hkeys]
    exact h.keys.nodup_iff.mp hdistinct.keys
  have hperm : sections.printed.Perm others.printed := by
    refine Table.perm_of_get? hnodup hothers fun sectionName => ?_
    rw [printed, printed, Table.get?_map (fun _ => Section.printAt? 1),
      Table.get?_map (fun _ => Section.printAt? 1)]
    have hvalues := h.values sectionName
    have hnames := fun values (h : Table.get? sectionName sections = some values) =>
      hdistinct.names _ (Table.mem_of_get? sectionName values sections h)
    generalize Table.get? sectionName sections = left at hvalues hnames ⊢
    generalize Table.get? sectionName others = right at hvalues ⊢
    cases hvalues with
    | none => rfl
    | @some values others hshuffles =>
        rcases hshuffles with rfl | ⟨hperm, htext⟩
        · rfl
        · exact congrArg some (Section.printAt?_of_perm (hnames values rfl) htext hperm 1)
  rw [print?_eq_printed, print?_eq_printed, Json.sortByKey_congr hnodup hperm]

/-! ## What setting a value leaves -/

/-- There is a value equal to this one already. -/
def holds (sectionName name : Text) (value : Json) (sections : Sections) : Bool :=
  (sections.value? sectionName name).map (·.agrees value) = some true

/-- The sections with a value put under a name, unless there is an equal one. -/
def settle (sectionName name : Text) (value : Json) (sections : Sections) : Sections :=
  if sections.holds sectionName name value then sections
  else putValue sectionName name value sections

theorem Distinct.settle (h : sections.Distinct) (sectionName name : Text) (value : Json) :
    Distinct (settle sectionName name value sections) := by
  unfold Sections.settle
  split
  · exact h
  · exact h.putValue sectionName name value

theorem value?_settle_of_ne (h : ¬ (sectionName = otherSection ∧ name = otherName))
    (value : Json) (sections : Sections) :
    value? otherSection otherName (settle sectionName name value sections)
      = value? otherSection otherName sections := by
  unfold settle
  split
  · rfl
  · rw [value?_putValue, if_neg h]

theorem holds_settle_of_ne (h : ¬ (sectionName = otherSection ∧ name = otherName))
    (value second : Json) (sections : Sections) :
    (settle sectionName name value sections).holds otherSection otherName second
      = sections.holds otherSection otherName second := by
  rw [holds, value?_settle_of_ne h, holds]

/-- The value that is set is there, or one that is equal to it. -/
theorem holds_settle (hvalue : value.Keyed) (hnan : value.isNan = false)
    (sectionName name : Text) (sections : Sections) :
    (settle sectionName name value sections).holds sectionName name value = true := by
  unfold settle
  split
  · assumption
  · rw [holds, value?_putValue, if_pos ⟨rfl, rfl⟩, Option.map_some, ← Json.alike_eq_agrees hnan,
      hvalue.alike_self]
    exact decide_eq_true rfl

theorem get?_settle_of_ne (h : sectionName ≠ otherSection) (name : Text) (value : Json)
    (sections : Sections) : Table.get? otherSection (settle sectionName name value sections)
      = Table.get? otherSection sections := by
  unfold settle
  split
  · rfl
  · exact get?_putValue_of_ne h name value sections

/-- Values that are set under different names can be set in either order. -/
theorem settle_comm (h : ¬ (sectionName = otherSection ∧ name = otherName))
    (value second : Json) (sections : Sections) :
    Matches Section.Shuffles
      (settle otherSection otherName second (settle sectionName name value sections))
      (settle sectionName name value (settle otherSection otherName second sections)) := by
  have hswap : ¬ (otherSection = sectionName ∧ otherName = name) :=
    fun heq => h ⟨heq.1.symm, heq.2.symm⟩
  have hsame : ∀ sections, Matches Section.Shuffles sections sections :=
    Matches.refl fun _ => Or.inl rfl
  -- Whether a value is there already is the same before and after the other one is settled,
  -- so the cases are those of the sections as they were.
  rw [settle, holds_settle_of_ne h]
  conv => rhs; rw [settle, holds_settle_of_ne hswap]
  by_cases hvalue : sections.holds sectionName name value = true
  · rw [if_pos hvalue, settle, if_pos hvalue, settle]
    exact hsame _
  by_cases hsecond : sections.holds otherSection otherName second = true
  · rw [if_neg hvalue, if_pos hsecond, settle, if_neg hvalue, settle, if_pos hsecond]
    exact hsame _
  · rw [if_neg hvalue, if_neg hsecond, settle, if_neg hvalue, settle, if_neg hsecond]
    exact putValue_comm hswap second value sections

end Sections

namespace SettingsStore

variable {store : SettingsStore} {key sectionName name : Text}

/-! ## Calls by what they do to the sections -/

/-- Setting a value in a section changes nothing when there is an equal one, and puts it
    there when there is none, if the section is there or not. -/
theorem set_inside (hkey : Dotted key sectionName name) (store : SettingsStore) (value : Json) :
    store.set key value
      = ({ store with
          data := store.data.settle sectionName name value
          dirty := store.dirty || !store.data.holds sectionName name value },
        .ok !store.data.holds sectionName name value) := by
  have hinside : ¬ name.isEmpty = true := mt List.isEmpty_iff.mp hkey.inside
  unfold set
  by_cases hholds : store.data.holds sectionName name value = true
  · -- There is a value under the name, so the section is there.
    rcases Option.map_eq_some_iff.mp (of_decide_eq_true hholds) with ⟨found, hfound, hagrees⟩
    rcases (Sections.value?_eq_some_iff sectionName name found).mp hfound with
      ⟨values, hvalues, hvalue⟩
    simp only [hkey.split, if_neg hinside, hvalues, Option.getD_some, hvalue, Option.map_some,
      hagrees, putSection, Table.put_of_get? hvalues, Sections.settle, hholds, if_true,
      Bool.not_true, Bool.or_false]
  · -- A section that is missing is made first, and then the value is put in it.
    have hlacks := of_decide_eq_false (Bool.eq_false_of_not_eq_true hholds)
    simp only [hkey.split, if_neg hinside, ← Sections.value?_eq_getD, putSection, Table.put_put]
    rw [Sections.settle, if_neg hholds, Bool.eq_false_of_not_eq_true hholds, Bool.not_false,
      Bool.or_true]
    rfl

/-- Asking for a value in a section, if the section is there or not. -/
theorem get_inside (hkey : Dotted key sectionName name) (store : SettingsStore)
    (default : Json) :
    store.get key default = .ok ((store.data.value? sectionName name).getD default) := by
  cases hvalues : Table.get? sectionName store.data with
  | none =>
      unfold get
      simp only [hkey.split, Sections.value?, hvalues]
      rfl
  | some values =>
      rw [get_dotted hkey hvalues, Sections.value?, hvalues]
      rfl

/-- What is written and what becomes of the host depends on how the sections are written
    only. -/
theorem save_congr {left right : SettingsStore} (hsame : left = { right with data := left.data })
    (hprint : left.data.print? = right.data.print?) (host : Host) :
    (left.save host).2 = (right.save host).2 := by
  generalize left.data = data at hsame hprint
  subst hsame
  unfold save payload?
  simp only [hprint]
  split
  · rfl
  split
  · rfl
  split
  · rfl
  split <;> rfl

/-! ## Names stay distinct -/

theorem distinct_withDefaults {defaults : Sections} (h : defaults.Distinct) (stored : Table Json) :
    Sections.Distinct (withDefaults defaults stored) where
  keys := by
    rw [names_withDefaults]
    exact h.keys
  names entry hmem := by
    rcases List.mem_map.mp hmem with ⟨⟨name, values⟩, hdefault, rfl⟩
    dsimp only [fill]
    split
    · exact Section.nodup_update (h.names _ hdefault) _
    · exact h.names _ hdefault

theorem distinct_load (hdefaults : store.defaults.Distinct) (h : store.data.Distinct)
    (host : Host) : (load store host).1.data.Distinct := by
  cases hload : load store host with
  | mk left outcome =>
      cases outcome with
      | error failure =>
          rcases load_failed hload with ⟨loadError, rfl⟩
          exact h
      | ok _ =>
          rcases load_eq_ok hload with ⟨stored, dirty, loadError, _, _, rfl⟩
          exact distinct_withDefaults hdefaults stored

theorem distinct_set (h : store.data.Distinct) {value : Json}
    (hvalue : (value.fields.map (·.1)).Nodup) (key : Text) :
    (store.set key value).1.data.Distinct := by
  unfold set
  cases SettingsKey.split key with
  | error failure => exact h
  | ok parts =>
      rcases parts with ⟨sectionName, name⟩
      dsimp only
      have hvalues := h.getD sectionName
      have hmade := h.put hvalues sectionName
      split
      · split
        · exact hmade
        · cases hsection : Section.ofJson value with
          | error failure => exact hmade
          | ok values => exact hmade.put (Section.nodup_ofJson hvalue hsection) sectionName
      · split
        · exact hmade
        · exact hmade.put (Section.nodup_put hvalues _ value) sectionName

/-- The call sets no object that has a key twice. -/
def Call.Keyed : Call → Prop
  | .set _ value => (value.fields.map (·.1)).Nodup
  | .get _ _ | .save | .load => True

/-- No name is there twice in the settings, nor in their defaults. -/
structure Tidy (store : SettingsStore) : Prop where
  defaults : store.defaults.Distinct
  data : store.data.Distinct

/-- A store that has read nothing yet is tidy if its defaults are. -/
theorem tidy_fresh {defaults : Sections} (h : defaults.Distinct) (path : FilePath)
    (persistent : Bool) : (fresh path defaults persistent).Tidy where
  defaults := h
  data := ⟨List.nodup_nil, fun _ hmem => absurd hmem List.not_mem_nil⟩

theorem Tidy.set (h : store.Tidy) {value : Json} (hvalue : (value.fields.map (·.1)).Nodup)
    (key : Text) : (store.set key value).1.Tidy where
  defaults := by
    have hsettles := set_settles store key value
    generalize store.set key value = result at hsettles ⊢
    rcases result with ⟨left, outcome⟩
    cases hsettles with
    | unnamed | left | changed => exact h.defaults
  data := distinct_set h.data hvalue key

theorem Tidy.load (h : store.Tidy) (host : Host) : (store.load host).1.Tidy where
  defaults := by
    have hdefaults : (store.load host).1.defaults = store.defaults := by
      rcases exists_finds store host with ⟨loadError, found, hfinds⟩
      rw [hfinds.load_eq]
      cases found with
      | error failure => rfl
      | ok found =>
          simp only [refill]
          split <;> rfl
    rw [hdefaults]
    exact h.defaults
  data := distinct_load h.defaults h.data host

theorem Tidy.save (h : store.Tidy) {saved : SettingsStore} {host after : Host}
    {outcome : Except Failure Unit} (hsave : store.save host = (saved, after, outcome)) :
    saved.Tidy := by
  have hkept : saved.defaults = store.defaults ∧ saved.data = store.data := by
    have hsaved : (store.save host).1 = saved := congrArg Prod.fst hsave
    rw [← hsaved]
    unfold SettingsStore.save
    split
    · exact ⟨rfl, rfl⟩
    split
    · exact ⟨rfl, rfl⟩
    split
    · exact ⟨rfl, rfl⟩
    split <;> exact ⟨rfl, rfl⟩
  exact ⟨hkept.1 ▸ h.defaults, hkept.2 ▸ h.data⟩

/-- Every call keeps names distinct. -/
theorem tidy_step {state next : SettingsStore × Host} {call : Call} (h : state.1.Tidy)
    (hcall : call.Keyed) (hnext : after state call = .ok next) : next.1.Tidy := by
  cases call with
  | get key default => exact Except.ok.inj hnext ▸ h
  | set key value => exact Except.ok.inj hnext ▸ h.set hcall key
  | save =>
      rw [after] at hnext
      split at hnext
      · next saved host hsave => exact Except.ok.inj hnext ▸ h.save hsave
      · exact absurd hnext (by simp only [reduceCtorEq, not_false_eq_true])
  | load => exact Except.ok.inj hnext ▸ h.load state.2

/-- A course of calls keeps names distinct. -/
theorem tidy_follow {state last : SettingsStore × Host} {calls : List Call} (h : state.1.Tidy)
    (hcalls : ∀ call ∈ calls, call.Keyed) (hlast : follow state calls = .ok last) :
    last.1.Tidy := by
  induction calls generalizing state with
  | nil => exact Except.ok.inj hlast ▸ h
  | cons call calls ih =>
      rw [List.forall_mem_cons] at hcalls
      unfold follow at hlast
      split at hlast
      · next hnext => exact ih (tidy_step h hcalls.1 hnext) hcalls.2 hlast
      · exact absurd hlast (by simp only [reduceCtorEq, not_false_eq_true])

/-! ## Two values in either order -/

/-- The key asks neither for the value under a name of a section nor for all of the
    section. -/
def Apart (sectionName name key : Text) : Prop :=
  SettingsKey.split key ≠ .ok (sectionName, name) ∧ SettingsKey.split key ≠ .ok (sectionName, [])

/-- What else is asked for does not see a value that is set. -/
theorem get_of_settle {before after : SettingsStore} {value : Json}
    (hdata : after.data = before.data.settle sectionName name value)
    (hapart : Apart sectionName name key) (default : Json) :
    after.get key default = before.get key default := by
  cases hsplit : SettingsKey.split key with
  | error failure =>
      unfold get
      simp only [hsplit]
  | ok parts =>
      rcases parts with ⟨otherSection, otherName⟩
      by_cases hinside : otherName = []
      · -- The key asks for all of a section, which is another one.
        subst hinside
        have hsection : sectionName ≠ otherSection := fun heq => hapart.2 (heq ▸ hsplit)
        unfold get
        simp only [hsplit, hdata, Sections.get?_settle_of_ne hsection]
      · have hdiffer : ¬ (sectionName = otherSection ∧ name = otherName) :=
          fun ⟨hsection, hname⟩ => hapart.1 (hsection ▸ hname ▸ hsplit)
        rw [get_inside ⟨hsplit, hinside⟩, get_inside ⟨hsplit, hinside⟩, hdata,
          Sections.value?_settle_of_ne hdiffer]

theorem get_of_holds {value : Json} (hkey : Dotted key sectionName name)
    (h : store.data.holds sectionName name value = true) (default : Json) :
    ∃ found, store.get key default = .ok found ∧ found.agrees value = true := by
  rcases Option.map_eq_some_iff.mp (of_decide_eq_true h) with ⟨found, hfound, hagrees⟩
  exact ⟨found, by rw [get_inside hkey, hfound, Option.getD_some], hagrees⟩

/-- What two values leave that are set one after the other. -/
theorem set_set {first second otherSection otherName : Text}
    (hfirst : Dotted first sectionName name) (hsecond : Dotted second otherSection otherName)
    (hdiffer : ¬ (sectionName = otherSection ∧ name = otherName)) (store : SettingsStore)
    (value other : Json) : ∃ middle,
      store.set first value = (middle, .ok !store.data.holds sectionName name value)
        ∧ middle.set second other
          = ({ store with
              data := (store.data.settle sectionName name value).settle otherSection otherName other
              dirty := (store.dirty || !store.data.holds sectionName name value)
                || !store.data.holds otherSection otherName other },
            .ok !store.data.holds otherSection otherName other) := by
  refine ⟨_, set_inside hfirst store value, ?_⟩
  rw [set_inside hsecond, Sections.holds_settle_of_ne hdiffer]

/-- What is asked for after two values were settled: each of them, or one that is equal to
    it, and what else there was. -/
theorem get_of_settled_both {after : SettingsStore} {first second otherSection otherName : Text}
    (hfirst : Dotted first sectionName name) (hsecond : Dotted second otherSection otherName)
    (hdiffer : ¬ (sectionName = otherSection ∧ name = otherName)) {value other : Json}
    (hvalue : value.Keyed) (hvalueNan : value.isNan = false)
    (hother : other.Keyed) (hotherNan : other.isNan = false)
    (hdata : after.data
      = (store.data.settle sectionName name value).settle otherSection otherName other)
    (default : Json) :
    (∃ found, after.get first default = .ok found ∧ found.agrees value = true)
      ∧ (∃ found, after.get second default = .ok found ∧ found.agrees other = true)
      ∧ ∀ key, Apart sectionName name key → Apart otherSection otherName key →
        after.get key default = store.get key default := by
  have hswap : ¬ (otherSection = sectionName ∧ otherName = name) :=
    fun heq => hdiffer ⟨heq.1.symm, heq.2.symm⟩
  let middle : SettingsStore := { store with data := store.data.settle sectionName name value }
  refine ⟨get_of_holds hfirst ?_ default, get_of_holds hsecond ?_ default,
    fun key hkey hotherKey => ?_⟩
  · rw [hdata, Sections.holds_settle_of_ne hswap]
    exact Sections.holds_settle hvalue hvalueNan sectionName name store.data
  · rw [hdata]
    exact Sections.holds_settle hother hotherNan otherSection otherName _
  · have hthen : after.get key default = middle.get key default :=
      get_of_settle hdata hotherKey default
    rw [hthen]
    exact get_of_settle rfl hkey default

/-- Two values that are set one after the other, under keys that do not name the same
    value, come to the same in either order: both answers are the same, and so are the
    settings up to the order of sections and names, and everything else about them.
    Written, they make the same file or fail the same way. Each of the two values is
    there afterwards, or one that is equal to it, and whatever else is asked for is what
    it was. -/
theorem set_commutes (store : SettingsStore) (hdistinct : store.data.Distinct)
    {first second sectionName name otherSection otherName : Text}
    (hfirst : Dotted first sectionName name) (hsecond : Dotted second otherSection otherName)
    (hdiffer : ¬ (sectionName = otherSection ∧ name = otherName)) {value other : Json}
    (hvalue : value.Keyed) (hvalueNan : value.isNan = false)
    (hother : other.Keyed) (hotherNan : other.isNan = false) :
    ∃ (changed altered : Bool) (left right : SettingsStore),
      (∃ middle, store.set first value = (middle, .ok changed)
          ∧ middle.set second other = (left, .ok altered))
        ∧ (∃ middle, store.set second other = (middle, .ok altered)
          ∧ middle.set first value = (right, .ok changed))
        ∧ left.data.Matches List.Perm right.data
        ∧ left = { right with data := left.data }
        ∧ (∀ host, (left.save host).2 = (right.save host).2)
        ∧ ∀ after, after = left ∨ after = right → ∀ default,
          (∃ found, after.get first default = .ok found ∧ found.agrees value = true)
            ∧ (∃ found, after.get second default = .ok found ∧ found.agrees other = true)
            ∧ ∀ key, Apart sectionName name key → Apart otherSection otherName key →
              after.get key default = store.get key default := by
  have hswap : ¬ (otherSection = sectionName ∧ otherName = name) :=
    fun heq => hdiffer ⟨heq.1.symm, heq.2.symm⟩
  have hmatches := Sections.settle_comm hdiffer value other store.data
  have hprint := Sections.print?_of_matches
    ((hdistinct.settle sectionName name value).settle otherSection otherName other) hmatches
  rcases set_set hfirst hsecond hdiffer store value other with ⟨middle, hset, hthen⟩
  rcases set_set hsecond hfirst hswap store other value with ⟨between, hsetOther, hthenOther⟩
  refine ⟨_, _, _, _, ⟨middle, hset, hthen⟩, ⟨between, hsetOther, hthenOther⟩,
    hmatches.imp Section.Shuffles.perm, ?_, fun host => save_congr ?_ hprint host, ?_⟩
  · rw [Bool.or_right_comm]
  · rw [Bool.or_right_comm]
  · rintro after (hleft | hright) default
    · exact get_of_settled_both hfirst hsecond hdiffer hvalue hvalueNan hother hotherNan
        (congrArg data hleft) default
    · -- In the other order the two keys have changed their roles.
      rcases get_of_settled_both hsecond hfirst hswap hother hotherNan hvalue hvalueNan
        (congrArg data hright) default with ⟨hsecondly, hfirstly, hapart⟩
      exact ⟨hfirstly, hsecondly, fun key hkey hotherKey => hapart key hotherKey hkey⟩

/-- Two values in sections that are made for them: the sections come in the order they
    were made in, and are written alike. -/
theorem set_commutes_made :
    ((oneSection.set "u.x" .null).1.set " t.y.z" (.int 2)).1.data.map (·.1) = ["s", "u", "t"]
      ∧ ((oneSection.set " t.y.z" (.int 2)).1.set "u.x" .null).1.data.map (·.1) = ["s", "t", "u"]
      ∧ ∀ host, (((oneSection.set "u.x" .null).1.set " t.y.z" (.int 2)).1.save host).2
        = (((oneSection.set " t.y.z" (.int 2)).1.set "u.x" .null).1.save host).2 := by
  have hdistinct : oneSection.data.Distinct :=
    ⟨List.nodup_singleton _, List.forall_mem_singleton.mpr (List.nodup_singleton _)⟩
  have hfirst : Dotted "u.x" "u" "x" := ⟨by cbv, by decide⟩
  have hsecond : Dotted " t.y.z" "t" "y.z" := ⟨by cbv, by decide⟩
  rcases set_commutes oneSection hdistinct hfirst hsecond (by decide) .null rfl (.int 2) rfl with
    ⟨_, _, left, right, ⟨middle, hset, hleft⟩, ⟨between, hother, hright⟩, _, _, hsave, _⟩
  refine ⟨by cbv, by cbv, fun host => ?_⟩
  rw [hset, hleft, hother, hright]
  exact hsave host

end SettingsStore

end QueryDesk
