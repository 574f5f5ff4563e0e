import Mathlib.Data.List.InsertIdx
import QueryDesk.Proofs.Desk.Cursor
import QueryDesk.Proofs.Desk.Deeds

/-!
# Rows of tabs

The cursor of an editor moves all the time. What else can be told of an editor is its face:
the path of its file, its text, and whether it is marked as changed. A row of tabs is told by
the faces of its editors, in their order. Selecting a tab and moving a cursor leave them all,
another state of the current editor changes one of them, and a file that is shown in a new
tab adds one at the end. So a row that files were shown in begins with what it was before.

## Main definitions

* `Editor.Face`, `Tabs.faces`: An editor, and a row of them, without the cursors.
* `Tabs.Stays`: The row begins with what it was, and what is added is of some kind.

## Theorems

* `faces_setEditor`: The row with the current editor in another state.
* `setEditor_self`: The row with the current editor as it is.
* `Stays.trans`: A row that stays, and stays again.
-/

namespace QueryDesk

/-- What can be told of an editor without its cursor. -/
structure Editor.Face where
  path : Option Text
  text : Text
  modified : Bool

namespace Editor

/-- The face of an editor. -/
def face (editor : Editor) : Face :=
  ⟨editor.path, editor.sourceText, editor.buffer.modified⟩

theorem select_face (editor : Editor) (start : Int) (stop : Option Int) :
    (editor.select start stop).face = editor.face :=
  (Face.mk.injEq _ _ _ _ _ _).mpr ⟨rfl, select_sourceText editor start stop,
    Buffer.select_modified editor.buffer start stop⟩

theorem goTo_face (editor : Editor) (line column : Int) :
    (editor.goTo line column).face = editor.face :=
  select_face editor (positionOf editor.buffer line column) none

end Editor

namespace Tabs

theorem select_current (tabs : Tabs) (index : Nat) (h : index < tabs.all.length) :
    (tabs.select index).current = some index := by
  have hget : (tabs.get? index).isSome = true := by
    rw [get?, if_neg (by omega), Int.toNat_natCast, List.getElem?_eq_getElem h]
    rfl
  rw [select, if_pos hget]
  rfl

theorem addCurrent_current (tabs : Tabs) (tab : Tab) :
    (tabs.addCurrent tab).current = some tabs.all.length := by
  refine select_current (tabs.add tab) tabs.all.length ?_
  rw [add, List.length_append, List.length_singleton]
  exact Nat.lt_succ_self _

theorem indexOf?_lt (tabs : Tabs) (path : Text) (index : Nat)
    (h : tabs.indexOf? path = some index) : index < tabs.all.length := by
  rcases List.findIdx?_eq_some_iff_getElem.mp h with ⟨hlt, -⟩
  exact hlt

/-- What is at each number when the current editor is put in another state. -/
theorem setEditor_get (tabs : Tabs) (editor : Editor) (k : Nat) :
    (tabs.setEditor editor).all[k]?
      = (tabs.all[k]?).map fun tab =>
        if tabs.current = some k then { tab with editor } else tab := by
  unfold setEditor
  cases hcurrent : tabs.current with
  | none =>
      simp only [reduceCtorEq, if_false]
      rw [Option.map_id']
  | some index =>
      simp only [List.getElem?_modify, Option.some.injEq]
      by_cases hk : index = k
      · simp only [hk, if_true]
        rfl
      · simp only [hk, if_false]
        rfl

theorem setEditor_current (tabs : Tabs) (editor : Editor) :
    (tabs.setEditor editor).current = tabs.current := by
  unfold setEditor
  split
  · rfl
  · rfl

theorem editor?_eq_some (tabs : Tabs) (editor : Editor) (h : tabs.editor? = some editor) :
    ∃ index tab, tabs.current = some index ∧ tabs.all[index]? = some tab ∧ tab.editor = editor := by
  rcases Option.map_eq_some_iff.mp h with ⟨tab, htab, heditor⟩
  rcases Option.bind_eq_some_iff.mp htab with ⟨index, hcurrent, hget⟩
  exact ⟨index, tab, hcurrent, hget, heditor⟩

theorem setEditor_self (tabs : Tabs) (editor : Editor) (h : tabs.editor? = some editor) :
    tabs.setEditor editor = tabs := by
  rcases editor?_eq_some tabs editor h with ⟨index, tab, hcurrent, hget, rfl⟩
  have hall : (tabs.setEditor tab.editor).all = tabs.all := by
    refine List.ext_getElem? fun k => ?_
    rw [setEditor_get]
    by_cases hk : tabs.current = some k
    · rw [hcurrent, Option.some.injEq] at hk
      rw [← hk, hget, Option.map_some, if_pos hcurrent]
    · simp only [hk, if_false]
      exact Option.map_id'
  exact (Tabs.mk.injEq _ _ _ _).mpr ⟨hall, setEditor_current tabs tab.editor⟩

/-- A tab stays where it is, and as it is unless it is that of the current editor. -/
theorem setEditor_kept (tabs : Tabs) (editor changed : Editor) (k : Nat) (tab : Tab)
    (heditor : tabs.editor? = some editor) (htab : tabs.all[k]? = some tab) :
    ∃ kept, (tabs.setEditor changed).all[k]? = some kept
      ∧ (tabs.current = some k ∧ tab.editor = editor ∧ kept.editor = changed ∨ kept = tab) := by
  have hget := setEditor_get tabs changed k
  rw [htab, Option.map_some] at hget
  refine ⟨_, hget, ?_⟩
  rcases editor?_eq_some tabs editor heditor with ⟨index, now, hcurrent, hnow, hsame⟩
  by_cases hk : tabs.current = some k
  · rw [hcurrent, Option.some.injEq] at hk
    subst hk
    rw [hnow, Option.some.injEq] at htab
    rw [if_pos hcurrent]
    exact Or.inl ⟨hcurrent, htab ▸ hsame, rfl⟩
  · rw [if_neg hk]
    exact Or.inr rfl

/-! ## The faces of a row -/

/-- The faces of the editors in a row of tabs. -/
def faces (tabs : Tabs) : List Editor.Face :=
  tabs.all.map (·.editor.face)

theorem faces_length (tabs : Tabs) : tabs.faces.length = tabs.all.length :=
  List.length_map _

theorem faces_get (tabs : Tabs) (k : Nat) :
    tabs.faces[k]? = (tabs.all[k]?).map (·.editor.face) :=
  List.getElem?_map

theorem faces_eraseIdx {tabs after : Tabs} {k : Nat} (h : after.all = tabs.all.eraseIdx k) :
    after.faces = tabs.faces.eraseIdx k := by
  rw [faces, faces, h, List.eraseIdx_map]

theorem faces_select (tabs : Tabs) (index : Int) : (tabs.select index).faces = tabs.faces :=
  congrArg (List.map fun tab : Tab => tab.editor.face) (select_all tabs index)

theorem faces_addCurrent (tabs : Tabs) (tab : Tab) :
    (tabs.addCurrent tab).faces = tabs.faces ++ [tab.editor.face] := by
  rw [faces, addCurrent_all, List.map_append]
  rfl

/-- The row with the current editor in another state has another face there. -/
theorem faces_setEditor (tabs : Tabs) (editor changed : Editor) (h : tabs.editor? = some editor) :
    ∃ k, tabs.current = some k ∧ tabs.faces[k]? = some editor.face
      ∧ (tabs.setEditor changed).faces = tabs.faces.set k changed.face := by
  rcases editor?_eq_some tabs editor h with ⟨k, tab, hcurrent, hget, rfl⟩
  have hface : tabs.faces[k]? = some tab.editor.face := by
    rw [faces_get, hget, Option.map_some]
  refine ⟨k, hcurrent, hface, List.ext_getElem? fun j => ?_⟩
  -- At the current number both rows have the new face, elsewhere the old one.
  rw [faces_get, setEditor_get, List.getElem?_set]
  by_cases hk : k = j
  · rw [if_pos hk, if_pos (hk ▸ (List.getElem?_eq_some_iff.mp hface).1), ← hk, hget]
    simp only [hcurrent, if_true, Option.map_some]
  · have hother : ¬ tabs.current = some j := fun hj =>
      hk (Option.some.inj (hcurrent.symm.trans hj))
    rw [if_neg hk, faces_get]
    simp only [hother, if_false, Option.map_id']

theorem faces_setEditor_self (tabs : Tabs) (editor changed : Editor)
    (h : tabs.editor? = some editor) (hface : changed.face = editor.face) :
    (tabs.setEditor changed).faces = tabs.faces := by
  rcases faces_setEditor tabs editor changed h with ⟨k, -, hget, hset⟩
  rcases List.getElem?_eq_some_iff.mp hget with ⟨hlt, hget⟩
  rw [hset, hface, ← hget]
  exact List.set_getElem_self hlt

/-! ## Rows that stay -/

/-- The row begins with what it was before, and each editor that is added has a face of some
    kind. -/
def Stays (Fresh : Editor.Face → Prop) (tabs after : Tabs) : Prop :=
  ∃ more, after.faces = tabs.faces ++ more ∧ ∀ face ∈ more, Fresh face

variable {Fresh : Editor.Face → Prop} {tabs after : Tabs}

theorem Stays.of_faces (h : after.faces = tabs.faces) : Stays Fresh tabs after :=
  ⟨[], by rw [h, List.append_nil], fun _ hmem => absurd hmem List.not_mem_nil⟩

theorem Stays.get (h : Stays Fresh tabs after) {k : Nat} {tab : Tab}
    (htab : tabs.all[k]? = some tab) :
    ∃ kept, after.all[k]? = some kept ∧ kept.editor.face = tab.editor.face := by
  rcases h with ⟨more, hmore, -⟩
  have hface : after.faces[k]? = some tab.editor.face := by
    have hold : tabs.faces[k]? = some tab.editor.face := by rw [faces_get, htab, Option.map_some]
    rw [hmore, List.getElem?_append_left (List.getElem?_eq_some_iff.mp hold).1, hold]
  rw [faces_get] at hface
  exact Option.map_eq_some_iff.mp hface

theorem Stays.addCurrent {tab : Tab} (h : Fresh tab.editor.face) :
    Stays Fresh tabs (tabs.addCurrent tab) :=
  ⟨[tab.editor.face], faces_addCurrent tabs tab, fun _ hmem => List.mem_singleton.mp hmem ▸ h⟩

theorem Stays.trans {first second third : Tabs} (h : Stays Fresh first second)
    (h' : Stays Fresh second third) : Stays Fresh first third := by
  rcases h with ⟨more, hmore, hfresh⟩
  rcases h' with ⟨rest, hrest, hfresh'⟩
  refine ⟨more ++ rest, by rw [hrest, hmore, List.append_assoc], fun face hmem => ?_⟩
  rcases List.mem_append.mp hmem with hmem | hmem
  · exact hfresh face hmem
  · exact hfresh' face hmem

end Tabs

end QueryDesk
