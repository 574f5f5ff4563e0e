import QueryDesk.Proofs.Table
import QueryDesk.Settings.Store

/-!
# What setting a value answers and what it leaves

Setting a value answers whether anything changed, or it is refused. Whoever sets it
goes by that answer, and by whether the settings count as changed, to decide if they
have to be written.

The answer is borne out with one exception. A key can name a whole section that is not
among the settings, and the section is made before the value is looked at. When the
value is then equal to a section without values, or cannot be a section at all, the
answer is that nothing changed, or a refusal, and the settings do not count as changed;
but the section that was made stays behind, with nothing in it. For a value in a section
this cannot come up: a section that was just made holds no value that could be equal.

## Main definitions

* `SettingsStore.withSection`: The store with a section, made if it is missing.
* `SettingsStore.Settles`: What setting a value can come to.
* `SettingsStore.Litters`: A key and a value that leave an empty section behind.

## Theorems

* `set_settles`: Setting a value comes to one of the ends there are.
* `set_lacking`: What setting a whole section comes to when there is none yet.
* `set_keeps`: An answer that nothing changed, or a refusal, leaves the settings as they
  were unless an empty section is left behind.
* `set_litters`: A refused value that leaves a section behind.
-/

namespace QueryDesk

namespace SettingsStore

variable {store after : SettingsStore} {key sectionName : Text} {value : Json}
  {outcome : Except Failure Bool}

/-- The store with a section under a name: the one that is there, or one without
    values. -/
def withSection (store : SettingsStore) (sectionName : Text) : SettingsStore :=
  store.putSection sectionName ((Table.get? sectionName store.data).getD [])

theorem withSection_of_present {values : Section}
    (h : Table.get? sectionName store.data = some values) :
    store.withSection sectionName = store := by
  rw [withSection, h, Option.getD_some, putSection, Table.put_of_get? h]

theorem withSection_of_missing (h : Table.get? sectionName store.data = none) :
    store.withSection sectionName
      = { store with data := store.data ++ [(sectionName, [])] } := by
  rw [withSection, h, Option.getD_none, putSection,
    Table.put_of_not_mem ((Table.get?_eq_none_iff _ _).mp h)]

/-- What setting a value can come to: the key names nothing, the section it names is
    there from then on and nothing else changes, or the section gets other values. -/
inductive Settles (store : SettingsStore) (key : Text) :
    SettingsStore → Except Failure Bool → Prop
  | unnamed {failure : Failure} (hkey : SettingsKey.split key = .error failure) :
      Settles store key store (.error failure)
  | left {sectionName name : Text} {outcome : Except Failure Bool}
      (hkey : SettingsKey.split key = .ok (sectionName, name)) (hout : outcome ≠ .ok true) :
      Settles store key (store.withSection sectionName) outcome
  | changed {sectionName name : Text} (hkey : SettingsKey.split key = .ok (sectionName, name))
      (values : Section) :
      Settles store key
        { (store.withSection sectionName).putSection sectionName values with dirty := true }
        (.ok true)

/-- Setting a value comes to one of the ends there are. -/
theorem set_settles (store : SettingsStore) (key : Text) (value : Json) :
    Settles store key (store.set key value).1 (store.set key value).2 := by
  unfold set
  cases hkey : SettingsKey.split key with
  | error failure => exact .unnamed hkey
  | ok parts =>
      rcases parts with ⟨sectionName, name⟩
      dsimp only
      by_cases hname : name.isEmpty = true
      · rw [if_pos hname]
        split
        · exact .left hkey (by simp only [ne_eq, Except.ok.injEq, Bool.false_eq_true,
            not_false_eq_true])
        · cases Section.ofJson value with
          | error failure => exact .left hkey (by simp only [ne_eq, reduceCtorEq,
              not_false_eq_true])
          | ok values => exact .changed hkey values
      · rw [if_neg hname]
        split
        · exact .left hkey (by simp only [ne_eq, Except.ok.injEq, Bool.false_eq_true,
            not_false_eq_true])
        · exact .changed hkey _

/-- A section without values is equal to an object without fields only. -/
theorem agrees_nil_iff (value : Json) : Section.agrees [] value = true ↔ value = .obj [] := by
  cases value with
  | obj fields =>
      cases fields with
      | nil => exact iff_of_true rfl rfl
      | cons field rest =>
          exact iff_of_false (by simp only [Section.agrees, List.length_nil, List.length_cons,
            beq_iff_eq, Bool.and_eq_true, (Nat.succ_ne_zero _).symm, false_and, not_false_eq_true])
            (by simp only [Json.obj.injEq, reduceCtorEq, not_false_eq_true])
  | _ => exact iff_of_false Bool.false_ne_true (by simp only [reduceCtorEq, not_false_eq_true])

/-- What setting a whole section answers when there is none yet. -/
theorem set_lacking (hkey : SettingsKey.split key = .ok (sectionName, []))
    (hmissing : Table.get? sectionName store.data = none) (value : Json) :
    (store.set key value).2 ≠ .ok true
      ↔ value = .obj [] ∨ ∃ failure, Section.ofJson value = .error failure := by
  unfold set
  simp only [hkey, hmissing, Option.getD_none, List.isEmpty_nil, if_true]
  by_cases hempty : value = .obj []
  · rw [if_pos ((agrees_nil_iff value).mpr hempty)]
    exact iff_of_true (by simp only [ne_eq, Except.ok.injEq, Bool.false_eq_true,
      not_false_eq_true]) (Or.inl hempty)
  rw [if_neg (mt (agrees_nil_iff value).mp hempty)]
  cases Section.ofJson value with
  | error failure =>
      exact iff_of_true (by simp only [ne_eq, reduceCtorEq, not_false_eq_true])
        (Or.inr ⟨failure, rfl⟩)
  | ok values =>
      exact iff_of_false (not_not_intro rfl) (not_or_intro hempty
        (by simp only [reduceCtorEq, exists_false, not_false_eq_true]))

/-- A value in a section that was just made differs from what is there, which is
    nothing. -/
theorem set_inside_lacking {name : Text}
    (hkey : SettingsKey.split key = .ok (sectionName, name)) (hname : name ≠ [])
    (hmissing : Table.get? sectionName store.data = none) (value : Json) :
    (store.set key value).2 = .ok true := by
  unfold set
  simp only [hkey, hmissing, Option.getD_none]
  rw [if_neg (mt List.isEmpty_iff.mp hname)]
  rfl

/-- The key names a whole section that is not among the settings, and the value is equal
    to a section without values or cannot be a section. -/
def Litters (store : SettingsStore) (key : Text) (value : Json) (sectionName : Text) : Prop :=
  SettingsKey.split key = .ok (sectionName, [])
    ∧ Table.get? sectionName store.data = none
    ∧ (value = .obj [] ∨ ∃ failure, Section.ofJson value = .error failure)

/-- An answer that nothing changed, or a refusal, leaves the store as it was, or with an
    empty section more. -/
theorem set_left (h : store.set key value = (after, outcome)) (hout : outcome ≠ .ok true) :
    (after = store ∧ ∀ sectionName, ¬ store.Litters key value sectionName)
      ∨ ∃ sectionName, store.Litters key value sectionName
        ∧ after = { store with data := store.data ++ [(sectionName, [])] } := by
  have hsettles := set_settles store key value
  simp only [h] at hsettles
  cases hsettles with
  | unnamed hkey =>
      exact Or.inl ⟨rfl, fun _ hlitters => absurd (hkey.symm.trans hlitters.1)
        (by simp only [reduceCtorEq, not_false_eq_true])⟩
  | changed => exact absurd rfl hout
  | @left sectionName name _ hkey =>
      cases hvalues : Table.get? sectionName store.data with
      | some values =>
          refine Or.inl ⟨withSection_of_present hvalues, fun other hlitters => ?_⟩
          rw [(Prod.mk.inj (Except.ok.inj (hkey.symm.trans hlitters.1))).1,
            hlitters.2.1] at hvalues
          exact absurd hvalues (by simp only [reduceCtorEq, not_false_eq_true])
      | none =>
          -- A value in the section would have counted as a change.
          have hname : name = [] := by
            by_contra hname
            have hset := set_inside_lacking hkey hname hvalues value
            rw [h] at hset
            exact hout hset
          subst hname
          have hset := set_lacking hkey hvalues value
          rw [h] at hset
          exact Or.inr ⟨sectionName, ⟨hkey, hvalues, hset.mp hout⟩,
            withSection_of_missing hvalues⟩

/-- When setting a value answers that something changed, the settings count as changed.
    When it answers that nothing did, or is refused, they count as changed or not as
    before, and they are what they were, all sections and all values, unless an empty
    section is left behind; that section is then all that is new. -/
theorem set_keeps (store : SettingsStore) (key : Text) (value : Json) (after : SettingsStore)
    (outcome : Except Failure Bool) (h : store.set key value = (after, outcome)) :
    (outcome = .ok true → after.dirty = true)
      ∧ (outcome ≠ .ok true → after.dirty = store.dirty
          ∧ (after = store ↔ ∀ sectionName, ¬ store.Litters key value sectionName))
      ∧ ∀ sectionName, store.Litters key value sectionName →
          outcome ≠ .ok true
            ∧ after = { store with data := store.data ++ [(sectionName, [])] } := by
  refine ⟨fun hout => ?_, fun hout => ?_, fun sectionName hlitters => ?_⟩
  · have hsettles := set_settles store key value
    simp only [h] at hsettles
    cases hsettles with
    | unnamed => exact absurd hout (by simp only [reduceCtorEq, not_false_eq_true])
    | left _ hleft => exact absurd hout hleft
    | changed => rfl
  · rcases set_left h hout with ⟨rfl, hnone⟩ | ⟨sectionName, hlitters, rfl⟩
    · exact ⟨rfl, iff_of_true rfl hnone⟩
    · refine ⟨rfl, iff_of_false (fun heq => ?_) fun hnone => hnone sectionName hlitters⟩
      have hlength := congrArg (fun left => left.data.length) heq
      simp only [List.length_append, List.length_singleton] at hlength
      exact Nat.succ_ne_self _ hlength
  · have hout : outcome ≠ .ok true := by
      have hset := (set_lacking hlitters.1 hlitters.2.1 value).mpr hlitters.2.2
      rwa [h] at hset
    refine ⟨hout, ?_⟩
    rcases set_left h hout with ⟨_, hnone⟩ | ⟨other, hother, rfl⟩
    · exact absurd hlitters (hnone sectionName)
    · rw [(Prod.mk.inj (Except.ok.inj (hlitters.1.symm.trans hother.1))).1]

/-- A store with one section. -/
def oneSection : SettingsStore :=
  ⟨FilePath.parse "s.json", [("s", .ofFields [("a", .int 1)])], true,
    [("s", .ofFields [("a", .int 1)])], false, none⟩

/-- A number for a section that is there already is refused, and changes nothing. -/
theorem set_keeps_number : oneSection.set "s" (.int 5) = (oneSection, .error .noItems)
    ∧ ∀ sectionName, ¬ oneSection.Litters "s" (.int 5) sectionName := by
  have hset : oneSection.set "s" (.int 5) = (oneSection, .error .noItems) := by cbv
  have hkept := (set_keeps oneSection "s" (.int 5) oneSection (.error .noItems) hset).2.1
    (by simp only [ne_eq, reduceCtorEq, not_false_eq_true])
  exact ⟨hset, hkept.2.mp rfl⟩

/-- Setting a value need not leave the settings as they were when it answers that nothing
    changed, nor when it is refused: an empty object and a number, each for a section that
    is not there, leave that section behind. -/
theorem set_litters :
    ∃ after : SettingsStore, after.data ≠ oneSection.data
      ∧ oneSection.set "t" (.obj []) = (after, .ok false)
      ∧ oneSection.set "t" (.int 5) = (after, .error .noItems) := by
  refine ⟨oneSection.withSection "t", fun heq => ?_, by cbv, by cbv⟩
  exact absurd (congrArg List.length heq) (by decide)

end SettingsStore

end QueryDesk
