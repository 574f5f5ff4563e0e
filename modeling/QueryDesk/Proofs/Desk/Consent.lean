import QueryDesk.Proofs.Desk.Reloaded
import QueryDesk.Proofs.Desk.Reported

/-!
# Unsaved text and the user's consent

The text in a tab is settled when it is the one that was last read from the tab's file or
written to it. Whatever is done by hand to an editor marks it as changed, and the mark is
taken away only when its text was written. So an editor without the mark has a settled
text. No deed but closing takes a tab away, and none but a change by hand makes another
text of one: a file that is open already is not read again, and a save that fails leaves
its editor as it is.

A tab with the mark is closed only when the user answers a question about it with yes. The
end of the desk asks no question at all, so what is not settled then is lost.

## Main definitions

* `Deed.ByHand`: A deed that changes an editor only as it can be done by hand.
* `Window.written?`: The text that a save writes.
* `Window.settledAfter`, `Window.settledRun`: The texts last read or written.
* `Window.Settled`: What has no mark is settled.
* `Window.Agreed`: The user answered a question about an editor with yes.

## Theorems

* `settled_step`, `settled_run`: What has no mark stays settled.
* `closeTab_cases`: What closing a tab can lead to.
* `after_texts`: What every other deed leaves of the texts.
* `unsaved_needs_consent`: How the text in a tab can be lost.
* `quit_discards`: Text that is lost without a question.
-/

namespace QueryDesk

/-- The deed changes the current editor, if it does, by a stroke. -/
def Deed.ByHand : Deed → Prop
  | .edit change => ∃ stroke : Stroke, change = fun editor => editor.stroke stroke
  | _ => True

namespace Editor

/-- After a stroke that leaves no mark, the editor has the face it had. -/
theorem stroke_unmodified (editor : Editor) (stroke : Stroke)
    (h : (editor.stroke stroke).buffer.modified = false) :
    (editor.stroke stroke).face = editor.face := by
  cases stroke with
  | select start stop => exact select_face editor start stop
  | goTo line column => exact goTo_face editor line column
  | insert text => exact absurd h (by simp only [stroke, insert, Buffer.insert, Bool.true_eq_false,
      not_false_eq_true])

end Editor

namespace Window

theorem shows_stays (window : Window) (deed : Deed) (hshows : deed.Shows) :
    Tabs.Stays (fun _ => True) window.tabs (window.after deed).tabs :=
  (after_browses window deed hshows).stays fun _ _ _ _ _ _ _ => trivial

/-! ## Settled texts -/

/-- The text of the current editor that a save puts into a file, if it puts any there. -/
def written? (window : Window) : Option Text :=
  match window.tabs.editor? with
  | none => none
  | some editor =>
      match editor.save window.host (window.saveTarget editor).1 with
      | (_, _, .ok file) => if file.path.isEmpty then none else some editor.sourceText
      | (_, _, .error _) => none

/-- The texts that the tabs had when they were last read from a file or written to one, by
    their numbers, after a deed. A tab that was added has just been read, or is empty. -/
def settledAfter (window : Window) (settled : List Text) : Deed → List Text
  | .edit _ | .command .quit => settled
  | .command .save =>
      match window.tabs.current, window.written? with
      | some index, some text => settled.set index text
      | _, _ => settled
  | .closeTab index =>
      if (window.closeTab index).tabs.all.length < window.tabs.all.length then
        settled.eraseIdx index.toNat
      else settled
  | deed =>
      settled ++ ((window.after deed).tabs.all.drop settled.length).map (·.editor.sourceText)

/-- These texts after several deeds. -/
def settledRun : Window → List Text → List Deed → List Text
  | _, settled, [] => settled
  | window, settled, deed :: deeds =>
      settledRun (window.after deed) (window.settledAfter settled deed) deeds

theorem settledAfter_shows (window : Window) (settled : List Text) (deed : Deed)
    (hshows : deed.Shows) :
    window.settledAfter settled deed = settled
      ++ ((window.after deed).tabs.all.drop settled.length).map (·.editor.sourceText) := by
  cases deed with
  | edit change => exact absurd hshows not_false
  | closeTab index => exact absurd hshows not_false
  | command command =>
      cases command with
      | save => exact absurd hshows not_false
      | quit => exact absurd hshows not_false
      | _ => rfl
  | _ => rfl

/-- There is a text for every tab, and it is the one in the tab where there is no mark for
    changes. -/
structure Settled (window : Window) (settled : List Text) : Prop where
  length : settled.length = window.tabs.faces.length
  unmarked : ∀ (k : Nat) (face : Editor.Face), window.tabs.faces[k]? = some face →
    face.modified = false → settled[k]? = some face.text

variable {window after : Window} {settled : List Text}

theorem Settled.of_faces (h : Settled window settled)
    (hfaces : after.tabs.faces = window.tabs.faces) : Settled after settled :=
  ⟨by rw [hfaces]; exact h.length, by rw [hfaces]; exact h.unmarked⟩

theorem Settled.stays (h : Settled window settled)
    (hstays : Tabs.Stays (fun _ => True) window.tabs after.tabs) :
    Settled after
      (settled ++ (after.tabs.all.drop settled.length).map (·.editor.sourceText)) := by
  rcases hstays with ⟨more, hmore, -⟩
  -- The texts added to the record are those of the faces added to the row.
  have hadded : (after.tabs.all.drop settled.length).map (·.editor.sourceText)
      = more.map (·.text) := by
    have hdrop : (after.tabs.faces.drop settled.length).map (·.text) = more.map (·.text) := by
      rw [hmore, h.length, List.drop_left]
    rw [← hdrop, Tabs.faces, ← List.map_drop, List.map_map]
    rfl
  rw [hadded]
  refine ⟨?_, fun k face hface hmark => ?_⟩
  · rw [hmore, List.length_append, List.length_append, List.length_map, h.length]
  rw [hmore] at hface
  rcases Nat.lt_or_ge k settled.length with hlt | hge
  · rw [List.getElem?_append_left hlt]
    rw [List.getElem?_append_left (h.length ▸ hlt)] at hface
    exact h.unmarked k face hface hmark
  · rw [List.getElem?_append_right hge, List.getElem?_map]
    rw [List.getElem?_append_right (h.length ▸ hge), ← h.length] at hface
    rw [hface, Option.map_some]

/-- A stroke at the current editor settles nothing, and leaves it marked or as it was. -/
theorem settled_edit (h : Settled window settled) (stroke : Stroke) :
    Settled (window.after (.edit fun editor => editor.stroke stroke)) settled := by
  rcases edit_cases window fun editor => editor.stroke stroke with
    hsame | ⟨editor, heditor, hchanged⟩
  · rwa [hsame]
  rw [hchanged]
  cases hmark : (editor.stroke stroke).buffer.modified with
  | false =>
      refine h.of_faces (Tabs.faces_setEditor_self _ editor _ heditor ?_)
      exact Editor.stroke_unmodified editor stroke hmark
  | true =>
      -- The only face that is another one is marked.
      rcases Tabs.faces_setEditor _ editor (editor.stroke stroke) heditor with ⟨k, -, -, hset⟩
      refine ⟨by rw [hset, List.length_set]; exact h.length, fun j face hface hno => ?_⟩
      rw [hset, List.getElem?_set] at hface
      split at hface
      · split at hface
        · rw [← Option.some.inj hface] at hno
          exact absurd (hmark.symm.trans hno) Bool.noConfusion
        · exact absurd hface (Option.some_ne_none face).symm
      · exact h.unmarked j face hface hno

/-- What a save does to the tabs. It writes nothing and leaves them, or it writes the text of
    the current editor, which keeps it. -/
theorem save_written (window : Window) :
    (window.written? = none ∧ window.save.state.tabs = window.tabs)
      ∨ ∃ editor saved, window.tabs.editor? = some editor
        ∧ window.written? = some editor.sourceText
        ∧ window.save.state.tabs = window.tabs.setEditor saved
        ∧ saved.sourceText = editor.sourceText := by
  rcases save_step window with ⟨hnone, hsame⟩ | ⟨editor, saved, outcome, heditor, hsave, -, hgave⟩
  · exact Or.inl ⟨by simp only [written?, hnone], by rw [hsame]⟩
  rcases hgave with ⟨⟨file, rfl⟩, htabs⟩ | ⟨⟨failure, rfl⟩, htabs⟩
  · rcases Editor.save_saved editor saved _ _ _ file hsave with
      ⟨hnothing, rfl⟩ | ⟨hfile, htext, -, -⟩
    · refine Or.inl ⟨?_, ?_⟩
      · simp only [written?, heditor, hsave, hnothing, List.isEmpty_nil, if_true]
      · rw [htabs, Tabs.setEditor_self _ _ heditor]
    · refine Or.inr ⟨editor, saved, heditor, ?_, htabs, htext⟩
      simp only [written?, heditor, hsave, List.isEmpty_iff, if_neg hfile]
  · exact Or.inl ⟨by simp only [written?, heditor, hsave], htabs⟩

/-- A save settles the text that it writes. -/
theorem settled_save (h : Settled window settled) :
    Settled window.save.state (window.settledAfter settled (.command .save)) := by
  rcases save_written window with ⟨hnone, htabs⟩ | ⟨editor, saved, heditor, hsome, htabs, htext⟩
  · have hsettled : window.settledAfter settled (.command .save) = settled := by
      simp only [settledAfter, hnone]
      cases window.tabs.current with
      | none => rfl
      | some index => rfl
    rw [hsettled]
    exact h.of_faces (by rw [htabs])
  -- The row and the record are changed at the same number, and to the same text.
  rcases Tabs.faces_setEditor _ editor saved heditor with ⟨index, hcurrent, hget, hset⟩
  have hsettled : window.settledAfter settled (.command .save)
      = settled.set index editor.sourceText := by
    simp only [settledAfter, hcurrent, hsome]
  rw [hsettled]
  refine ⟨by rw [List.length_set, h.length, htabs, hset, List.length_set],
    fun k face hface hmark => ?_⟩
  rw [htabs, hset] at hface
  by_cases hk : index = k
  · subst hk
    have hlt := (List.getElem?_eq_some_iff.mp hget).1
    rw [List.getElem?_set_self hlt, Option.some.injEq] at hface
    rw [List.getElem?_set_self (by rwa [h.length]), ← hface, ← htext]
    rfl
  · rw [List.getElem?_set_ne hk] at hface ⊢
    exact h.unmarked k face hface hmark

/-! ## Closing -/

/-- The user answered a question about unsaved changes of an editor with yes, and that is all
    that was asked. -/
def Agreed (window after : Window) (editor : Editor) : Prop :=
  (window.user.answers.headD .null).isText "Yes" = true
    ∧ after.user = (window.user.ask
        (.question "Close File" ("Discard unsaved changes to " ++ editor.name ++ "?"))).2

/-- What closing a tab can lead to. The row stays as it is, or it loses the tab, and one with
    a mark only after the user agreed. -/
theorem closeTab_cases (window : Window) (index : Int) :
    (window.closeTab index).tabs = window.tabs
      ∨ ∃ (k : Nat) (tab : Tab), index = k ∧ window.tabs.all[k]? = some tab
        ∧ (window.closeTab index).tabs.all = window.tabs.all.eraseIdx k
        ∧ (tab.editor.buffer.modified = true →
          window.Agreed (window.closeTab index) tab.editor) := by
  unfold closeTab
  cases htab : window.tabs.get? index with
  | none => exact Or.inl rfl
  | some tab =>
      have hindex : 0 ≤ index := by
        by_contra hneg
        rw [Tabs.get?, if_pos (by omega)] at htab
        exact absurd htab (by simp only [reduceCtorEq, not_false_eq_true])
      have hget : window.tabs.all[index.toNat]? = some tab := by
        rwa [Tabs.get?, if_neg (by omega)] at htab
      have hremove : (window.tabs.remove index).all = window.tabs.all.eraseIdx index.toNat := by
        rw [Tabs.remove, htab, if_neg (by simp only [Option.isNone_some, Bool.false_eq_true,
          not_false_eq_true])]
      have hnat : index = (index.toNat : Int) := by omega
      simp only
      by_cases hmark : tab.editor.buffer.modified = true
      · rw [if_pos hmark]
        simp only [User.confirms]
        by_cases hyes : (window.user.answers.headD .null).isText "Yes" = true
        · refine Or.inr ⟨index.toNat, tab, hnat, hget, ?_, fun _ => ⟨hyes, ?_⟩⟩
          · simp only [User.ask, hyes, if_true]
            exact hremove
          · simp only [User.ask, hyes, if_true]
            rfl
        · simp only [User.ask, hyes]
          exact Or.inl rfl
      · rw [if_neg hmark]
        exact Or.inr ⟨index.toNat, tab, hnat, hget, hremove, fun h => absurd h hmark⟩

/-- Closing a tab leaves the texts of the others settled. -/
theorem settled_closeTab (h : Settled window settled) (index : Int) :
    Settled (window.closeTab index) (window.settledAfter settled (.closeTab index)) := by
  simp only [settledAfter]
  rcases closeTab_cases window index with htabs | ⟨k, tab, rfl, htab, hall, -⟩
  · rw [if_neg (by rw [htabs]; exact Nat.lt_irrefl _)]
    exact h.of_faces (by rw [htabs])
  have hlt := (List.getElem?_eq_some_iff.mp htab).1
  have hfaces := Tabs.faces_eraseIdx hall
  rw [if_pos (by rw [hall, List.length_eraseIdx_of_lt hlt]; omega), Int.toNat_natCast]
  refine ⟨?_, fun j face hface hmark => ?_⟩
  · rw [← Tabs.faces_length] at hlt
    rw [hfaces, List.length_eraseIdx_of_lt hlt, List.length_eraseIdx_of_lt (by rwa [h.length]),
      h.length]
  · rw [hfaces, List.getElem?_eraseIdx] at hface
    rw [List.getElem?_eraseIdx]
    split at hface
    · next hbefore =>
        rw [if_pos hbefore]
        exact h.unmarked j face hface hmark
    · next hafter =>
        rw [if_neg hafter]
        exact h.unmarked (j + 1) face hface hmark

/-! ## Runs -/

/-- What is told of settled texts stays right after a deed by hand. -/
theorem settled_step (h : Settled window settled) (deed : Deed) (hdeed : deed.ByHand) :
    Settled (window.after deed) (window.settledAfter settled deed) := by
  rcases deed.shows_or with hshows | ⟨change, rfl⟩ | rfl | ⟨index, rfl⟩ | rfl | rfl
  · rw [settledAfter_shows window settled deed hshows]
    exact h.stays (shows_stays window deed hshows)
  · rcases hdeed with ⟨stroke, rfl⟩
    exact settled_edit h stroke
  · exact h.stays (.addCurrent trivial)
  · exact settled_closeTab h index
  · exact settled_save h
  · have htabs : (window.after (.command .quit)).tabs = window.tabs := (close_state window).2.2.1
    exact h.of_faces (by rw [htabs])

/-- What is told of settled texts stays right in a run by hand. -/
theorem settled_run (h : Settled window settled) (deeds : List Deed)
    (hdeeds : ∀ deed ∈ deeds, deed.ByHand) :
    Settled (window.run deeds) (window.settledRun settled deeds) := by
  induction deeds generalizing window settled with
  | nil => exact h
  | cons deed deeds ih =>
      exact ih (settled_step h deed (hdeeds deed List.mem_cons_self))
        fun later hlater => hdeeds later (List.mem_cons_of_mem _ hlater)

/-- A deed by hand that is neither a close nor a quit keeps every tab, and its text unless it
    is a stroke at it. -/
theorem after_texts (window : Window) (deed : Deed) (hdeed : deed.ByHand)
    (hquit : deed ≠ .command .quit) (hclose : ∀ index, deed ≠ .closeTab index) (k : Nat)
    (tab : Tab) (htab : window.tabs.all[k]? = some tab) :
    ∃ kept, (window.after deed).tabs.all[k]? = some kept
      ∧ (kept.editor.sourceText = tab.editor.sourceText
        ∨ window.tabs.current = some k ∧ ∃ stroke : Stroke,
          deed = .edit (fun editor => editor.stroke stroke)
            ∧ kept.editor = tab.editor.stroke stroke) := by
  have hstays : Tabs.Stays (fun _ => True) window.tabs (window.after deed).tabs →
      ∃ kept, (window.after deed).tabs.all[k]? = some kept
        ∧ (kept.editor.sourceText = tab.editor.sourceText
          ∨ window.tabs.current = some k ∧ ∃ stroke : Stroke,
            deed = .edit (fun editor => editor.stroke stroke)
              ∧ kept.editor = tab.editor.stroke stroke) := by
    intro h
    rcases h.get htab with ⟨kept, hkept, hface⟩
    exact ⟨kept, hkept, Or.inl (congrArg Editor.Face.text hface)⟩
  rcases deed.shows_or with hshows | ⟨change, rfl⟩ | rfl | ⟨index, rfl⟩ | rfl | rfl
  · exact hstays (shows_stays window deed hshows)
  · rcases hdeed with ⟨stroke, rfl⟩
    rcases edit_cases window fun editor => editor.stroke stroke with
      hsame | ⟨editor, heditor, hchanged⟩
    · exact hstays (.of_faces (by rw [hsame]))
    rcases Tabs.setEditor_kept _ editor (editor.stroke stroke) k tab heditor htab with
      ⟨kept, hkept, ⟨hk, rfl, hstruck⟩ | rfl⟩
    · exact ⟨kept, hchanged ▸ hkept, Or.inr ⟨hk, stroke, rfl, hstruck⟩⟩
    · exact ⟨kept, hchanged ▸ hkept, Or.inl rfl⟩
  · exact hstays (.addCurrent trivial)
  · exact absurd rfl (hclose index)
  · rcases save_written window with ⟨-, htabs⟩ | ⟨editor, saved, heditor, -, htabs, htext⟩
    · exact hstays (.of_faces (congrArg Tabs.faces htabs))
    rcases Tabs.setEditor_kept _ editor saved k tab heditor htab with
      ⟨kept, hkept, ⟨-, rfl, hsaved⟩ | rfl⟩
    · exact ⟨kept, htabs ▸ hkept, Or.inl (by rw [hsaved, htext])⟩
    · exact ⟨kept, htabs ▸ hkept, Or.inl rfl⟩
  · exact absurd rfl hquit

/-- How the text in a tab can be lost, in every run by hand of a window that was made. No deed
    but a close or a quit takes a tab away or makes another text of one that no stroke is at.
    A close takes away a tab only if its text was last read from or written to its file just
    so, or if the user agreed. A quit asks nothing. -/
theorem unsaved_needs_consent (host : Host) (user : User) (settings : Settings)
    (deeds : List Deed) (deed : Deed) (hdeeds : ∀ done ∈ deeds, done.ByHand)
    (hdeed : deed.ByHand) :
    let first := (fresh host user settings).state
    let window := first.run deeds
    let settled := first.settledRun [] deeds
    settled.length = window.tabs.all.length
      ∧ (deed ≠ .command .quit → (∀ index, deed ≠ .closeTab index) →
        ∀ (k : Nat) (tab : Tab), window.tabs.all[k]? = some tab →
          ∃ kept, (window.after deed).tabs.all[k]? = some kept
            ∧ (kept.editor.sourceText = tab.editor.sourceText
              ∨ window.tabs.current = some k ∧ ∃ stroke : Stroke,
                deed = .edit (fun editor => editor.stroke stroke)
                  ∧ kept.editor = tab.editor.stroke stroke))
      ∧ (∀ index, deed = .closeTab index →
        (window.after deed).tabs = window.tabs
          ∨ ∃ (k : Nat) (tab : Tab), index = k ∧ window.tabs.all[k]? = some tab
            ∧ (window.after deed).tabs.all = window.tabs.all.eraseIdx k
            ∧ (settled[k]? = some tab.editor.sourceText
              ∨ window.Agreed (window.after deed) tab.editor))
      ∧ (deed = .command .quit → (window.after deed).user = window.user) := by
  intro first window settled
  have hfresh : Settled first [] := by
    have hfaces : first.tabs.faces = [] :=
      congrArg Tabs.faces (fresh_state host user settings).2.2
    refine ⟨by rw [hfaces]; rfl, fun k face hface => ?_⟩
    rw [hfaces, List.getElem?_nil] at hface
    exact absurd hface (Option.some_ne_none face).symm
  have hsettled : window.Settled settled := settled_run hfresh deeds hdeeds
  refine ⟨hsettled.length.trans window.tabs.faces_length,
    fun hquit hclose => after_texts window deed hdeed hquit hclose, ?_, ?_⟩
  · rintro index rfl
    rcases closeTab_cases window index with hsame | ⟨k, tab, hindex, htab, hall, hagreed⟩
    · exact Or.inl hsame
    refine Or.inr ⟨k, tab, hindex, htab, hall, ?_⟩
    -- Without the mark the text is settled, and with it the user was asked.
    cases hmark : tab.editor.buffer.modified with
    | false =>
        refine Or.inl (hsettled.unmarked k tab.editor.face ?_ hmark)
        rw [Tabs.faces_get, htab, Option.map_some]
    | true => exact Or.inr (hagreed hmark)
  · rintro rfl
    exact (close_state window).2.2.2

/-- Settings without a file of their own. -/
def noSettingsFile : SettingsStore :=
  .fresh (FilePath.parse "/settings.json") Settings.defaults false

/-- A window made on a disk with one file, for a user who says no and then yes. -/
def waveringDesk : Window :=
  (fresh (.holding "a.go" (Utf8.encode "a")) ⟨[.str "No", .str "Yes"], []⟩ noSettingsFile).state

/-- The file is opened and changed, and its tab is closed. -/
def waveringDeeds : List Deed :=
  [.openFile (.str "/a.go"), .edit (·.stroke (.insert "x")), .closeTab 0]

/-- A close of a changed text that the user answers with no leaves it, and one that is answered
    with yes takes it away. -/
theorem changed_tab_closed :
    waveringDesk.settledRun [] waveringDeeds = [("a" : Text)]
      ∧ (waveringDesk.run waveringDeeds).tabs.all.map (·.editor.sourceText) = [("xa" : Text)]
      ∧ ((waveringDesk.run waveringDeeds).after (.closeTab 0)).tabs.all = []
      ∧ ∃ tab, (waveringDesk.run waveringDeeds).tabs.all[0]? = some tab
        ∧ (waveringDesk.run waveringDeeds).Agreed
          ((waveringDesk.run waveringDeeds).after (.closeTab 0)) tab.editor := by
  have hsettled : waveringDesk.settledRun [] waveringDeeds = [("a" : Text)] := by decide +kernel
  have htexts : (waveringDesk.run waveringDeeds).tabs.all.map (·.editor.sourceText)
      = [("xa" : Text)] := by
    decide +kernel
  have hclosed : ((waveringDesk.run waveringDeeds).after (.closeTab 0)).tabs.all = [] := by
    decide +kernel
  have hhand : ∀ done ∈ waveringDeeds, done.ByHand := by
    simp only [waveringDeeds, List.forall_mem_cons, Deed.ByHand, List.not_mem_nil, false_implies,
      implies_true, and_self, and_true, true_and]
    exact ⟨.insert "x", rfl⟩
  refine ⟨hsettled, htexts, hclosed, ?_⟩
  have hconsent := (unsaved_needs_consent (.holding "a.go" (Utf8.encode "a"))
    ⟨[.str "No", .str "Yes"], []⟩ noSettingsFile waveringDeeds (.closeTab 0) hhand trivial).2.2.1
      0 rfl
  rw [← waveringDesk] at hconsent
  generalize waveringDesk.run waveringDeeds = window at *
  rcases hconsent with hsame | ⟨k, tab, hk, htab, -, hlast⟩
  · rw [← hsame, hclosed] at htexts
    exact absurd htexts.symm (List.cons_ne_nil _ _)
  · have hzero : 0 = k := Int.ofNat_inj.mp hk
    subst hzero
    refine ⟨tab, htab, hlast.resolve_left fun hread => ?_⟩
    -- The text in the tab is not the one that was read.
    have hshown : (window.tabs.all.map (·.editor.sourceText))[0]? = some tab.editor.sourceText := by
      rw [List.getElem?_map, htab, Option.map_some]
    rw [hsettled] at hread
    rw [htexts, ← hread] at hshown
    exact absurd hshown (by decide)

/-- A file is opened and changed, and the desk is quit. Nothing is asked, and what is on the
    disk is the old text. -/
theorem quit_discards :
    let first := (fresh (.holding "a.go" (Utf8.encode "a")) ⟨[], []⟩ noSettingsFile).state
    let window := first.run [.openFile (.str "/a.go"), .edit (·.stroke (.insert "x"))]
    let closed := window.after (.command .quit)
    window.tabs.all.map (·.editor.sourceText) = [("xa" : Text)]
      ∧ window.tabs.all.map (·.editor.buffer.modified) = [true]
      ∧ closed.bench.closed = true ∧ closed.user.shown = []
      ∧ closed.host.files.kind? ["a.go"] = some (.file (Utf8.encode "a") false) := by
  decide +kernel

end Window

end QueryDesk
