import QueryDesk.Proofs.Desk.Opened
import QueryDesk.Proofs.Desk.Target
import QueryDesk.Proofs.Settings.Loading

/-!
# A settings file that makes no sense

A settings file that cannot be read or makes no sense is reported and left alone,
so that its owner can mend it. Two deeds write files, and neither of them touches
it by itself: a save writes where its own path leads, and a quit writes settings
only when something in them has changed.

What changes in them is the directory of the last file that was opened. After a
file was shown in a new tab the settings count as changed, and a quit then puts
them, which are the defaults and that directory, over the file that was reported.
So the file is left alone for good only in a run that is not quit after a file was
opened.

## Main definitions

* `Window.SavesElsewhere`, `Window.SavesApart`: A save, and all saves of a run, are
  made to other places.
* `Window.QuitsUnopened`: A run in which no quit comes after a file was opened.

## Theorems

* `save_step`: What a save does to a window.
* `save_keeps`: A save keeps what is at any place but its target.
* `close_clean`: A quit without changes writes nothing.
* `after_keeps`, `run_keeps`: What a deed, and a run, keep.
* `reported_file_kept`: A file that was reported stays what it was.
* `opened_file_misleads`: A file that was reported is written over.
-/

namespace QueryDesk

namespace Window

/-- The current editor would not be saved to the place. -/
def SavesElsewhere (window : Window) (place : Place) : Prop :=
  ∀ editor target, window.tabs.editor? = some editor →
    window.host.canonicalPath ((window.saveTarget editor).1.orElse editor.pathText) = .ok target →
      window.host.files.walk window.host.workDir .kept target ≠ .ok (.present place)

/-- Every save along the run is made to another place. -/
def SavesApart (place : Place) : Window → List Deed → Prop
  | _, [] => True
  | window, deed :: deeds =>
      (deed = .command .save → window.SavesElsewhere place)
        ∧ SavesApart place (window.after deed) deeds

/-- No quit along the run comes after a deed that shows a file in a new tab. -/
def QuitsUnopened : Window → List Deed → Prop
  | _, [] => True
  | window, deed :: deeds =>
      (window.Opens deed → Deed.command .quit ∉ deeds) ∧ QuitsUnopened (window.after deed) deeds

-- A quit before everything else comes after nothing.
theorem quitsUnopened_of_tail (window : Window) (deeds : List Deed)
    (h : Deed.command .quit ∉ deeds.tail) : QuitsUnopened window deeds := by
  induction deeds generalizing window with
  | nil => trivial
  | cons deed deeds ih =>
      exact ⟨fun _ => h, ih (window.after deed) fun hquit => h (List.mem_of_mem_tail hquit)⟩

theorem saveTarget_quiet (window : Window) (editor : Editor) :
    window.Quiet (window.saveTarget editor).2 := by
  unfold saveTarget
  split
  · exact ⟨rfl, rfl, rfl⟩
  · exact .refl window

-- Only an editor without a path can be left without a target.
theorem saveTarget_isEmpty (window : Window) (editor : Editor)
    (h : (window.saveTarget editor).1.isEmpty = true) : editor.pathText = [] := by
  unfold saveTarget at h
  split at h
  · next hpath => exact List.isEmpty_iff.mp hpath
  · next hpath => exact absurd h hpath

/-- What a save does to a window without an editor, which is nothing, and to one with an
    editor: the host is the one that the editor's save leaves, and the editor is the one
    that it gives, if it gave a file. -/
theorem save_step (window : Window) :
    window.tabs.editor? = none ∧ window.save.state = window
      ∨ ∃ editor saved outcome, window.tabs.editor? = some editor
        ∧ editor.save window.host (window.saveTarget editor).1
          = (window.save.state.host, saved, outcome)
        ∧ window.save.state.settings = window.settings
        ∧ ((∃ file, outcome = .ok file) ∧ window.save.state.tabs = window.tabs.setEditor saved
          ∨ (∃ failure, outcome = .error failure) ∧ window.save.state.tabs = window.tabs) := by
  cases heditor : window.tabs.editor? with
  | none =>
      refine Or.inl ⟨rfl, ?_⟩
      simp only [save, heditor, Outcome.pure]
  | some editor =>
      refine Or.inr ⟨editor, ?_⟩
      have hasked := saveTarget_quiet window editor
      by_cases hcancel : (window.saveTarget editor).1.isEmpty = true
      · -- Nothing is saved, which is what saving to no path does.
        have hsame : window.save = .pure (window.saveTarget editor).2 () := by
          simp only [save, heditor, if_pos hcancel]
        have hpath : (window.saveTarget editor).1.orElse editor.pathText = [] := by
          rw [Text.orElse, if_pos hcancel]
          exact saveTarget_isEmpty window editor hcancel
        have hnothing : editor.save window.host (window.saveTarget editor).1
            = (window.host, editor, .ok ⟨[], none⟩) := by
          unfold Editor.save
          rw [hpath]
          rfl
        rw [hsame]
        refine ⟨editor, .ok ⟨[], none⟩, rfl, ?_, hasked.settings, Or.inl ⟨⟨_, rfl⟩, ?_⟩⟩
        · rw [hnothing]
          exact congrArg (·, _) hasked.host.symm
        · rw [Tabs.setEditor_self _ _ heditor]
          exact hasked.tabs
      rcases hsave : editor.save window.host (window.saveTarget editor).1 with
        ⟨host, saved, outcome⟩
      refine ⟨saved, outcome, rfl, ?_⟩
      rw [← hasked.host] at hsave
      -- Whatever the outcome is, only what is shown and the editor are changed after that.
      cases outcome with
      | error failure =>
          simp only [save, heditor, if_neg hcancel, hsave]
          split
          · exact ⟨rfl, hasked.settings, Or.inr ⟨⟨failure, rfl⟩, hasked.tabs⟩⟩
          · exact ⟨rfl, hasked.settings, Or.inr ⟨⟨failure, rfl⟩, hasked.tabs⟩⟩
      | ok file =>
          have hshown := fun shown : Window =>
            showMessage_quiet shown ("Saved " ++ file.path) 1500
          simp only [save, heditor, if_neg hcancel, hsave, (hshown _).host, (hshown _).settings,
            (hshown _).tabs, hasked.tabs]
          exact ⟨rfl, hasked.settings, Or.inl ⟨⟨file, rfl⟩, trivial⟩⟩

/-- A save keeps the settings, and what is at any place but its target. -/
theorem save_keeps (window : Window) (place : Place)
    (hworkDir : ∀ name ∈ window.host.workDir, Path.Proper name)
    (hthere : window.host.files.kind? place ≠ none) (helsewhere : window.SavesElsewhere place) :
    window.save.state.host.files.kind? place = window.host.files.kind? place
      ∧ window.save.state.host.workDir = window.host.workDir
      ∧ window.save.state.settings = window.settings := by
  rcases save_step window with ⟨-, hsame⟩ | ⟨editor, saved, outcome, heditor, hsave, hsettings, -⟩
  · rw [hsame]
    exact ⟨rfl, rfl, rfl⟩
  rcases Editor.save_cases editor saved window.host _ _ outcome hsave with
    ⟨hhost, _⟩ | ⟨target, result, htarget, hne, hwrite, _⟩
  · rw [hhost]
    exact ⟨rfl, rfl, hsettings⟩
  · refine ⟨Host.writeSource_keeps window.host _ target _ _ result ?_ hwrite place hthere
      (helsewhere editor target heditor htarget), Host.writeSource_workDir hwrite, hsettings⟩
    exact Host.canonicalPath_normal_of_proper window.host hworkDir _ target htarget hne

/-- The end of the desk writes the settings, takes no tab away and asks nothing.
    Whether they could be written makes no difference to the window. -/
theorem close_state (window : Window) :
    window.close.state.host = (Settings.save window.settings window.host true).2.1
      ∧ window.close.state.settings = (Settings.save window.settings window.host true).1
      ∧ window.close.state.tabs = window.tabs
      ∧ window.close.state.user = window.user := by
  unfold close
  simp only
  split
  · exact ⟨rfl, rfl, rfl, rfl⟩
  · exact ⟨rfl, rfl, rfl, rfl⟩
  · exact ⟨rfl, rfl, rfl, rfl⟩

/-- A quit without changes in the settings writes nothing. -/
theorem close_clean (window : Window) (h : window.settings.dirty = false) :
    window.close.state.host = window.host ∧ window.close.state.settings = window.settings := by
  rw [(close_state window).1, (close_state window).2.1, Settings.save,
    if_pos (by simp only [h, Bool.not_false, Bool.and_self])]
  exact ⟨rfl, rfl⟩

/-- A quit with changes writes the settings where their path leads. -/
theorem close_writes (window : Window) (payload : Text) (made files : FileTree)
    (hdirty : window.settings.dirty = true) (hpersistent : window.settings.persistent = true)
    (hpayload : window.settings.payload? = some payload)
    (hmade : window.host.files.makeDirectories window.host.refusals window.host.workDir
      window.settings.path.parent = (made, .ok ()))
    (hwritten : made.overwrite window.host.refusals window.host.workDir window.settings.path.text
      (Utf8.encode payload) = (files, .ok ())) :
    window.close.state.host.files = files := by
  have hsave : SettingsStore.save window.settings window.host
      = ({ window.settings with loadError := none, dirty := false },
        { window.host with files }, .ok ()) := by
    unfold SettingsStore.save
    rw [if_neg (by simp only [hpersistent, Bool.not_true, Bool.false_eq_true, not_false_eq_true])]
    simp only [hpayload, hmade, hwritten]
  rw [(close_state window).1, Settings.save, if_neg (by simp only [hdirty, Bool.not_true,
    Bool.and_false, Bool.false_eq_true, not_false_eq_true]), hsave]

/-- What a deed keeps: a file that no save is made to, and the settings unless it
    opens a file. -/
theorem after_keeps (window : Window) (deed : Deed) (place : Place)
    (hworkDir : ∀ name ∈ window.host.workDir, Path.Proper name)
    (hthere : window.host.files.kind? place ≠ none)
    (hsave : deed = .command .save → window.SavesElsewhere place)
    (hquit : deed = .command .quit → window.settings.dirty = false) :
    (window.after deed).host.files.kind? place = window.host.files.kind? place
      ∧ (window.after deed).host.workDir = window.host.workDir
      ∧ ((window.after deed).settings = window.settings ∨ window.Opens deed) := by
  by_cases hsaves : deed = .command .save
  · subst hsaves
    rcases save_keeps window place hworkDir hthere (hsave rfl) with ⟨hkind, hdir, hsettings⟩
    exact ⟨hkind, hdir, Or.inl hsettings⟩
  by_cases hquits : deed = .command .quit
  · subst hquits
    rcases close_clean window (hquit rfl) with ⟨hhost, hsettings⟩
    have hafter : (window.after (.command .quit)).host = window.host := hhost
    rw [hafter]
    exact ⟨rfl, rfl, Or.inl hsettings⟩
  · rcases after_leaves window deed hsaves hquits with ⟨hdisk, hsettings⟩
    rw [hdisk.files, hdisk.workDir]
    exact ⟨rfl, rfl, hsettings⟩

/-- A run keeps a file that no save is made to, if it is not quit with changed
    settings or after a file was opened. -/
theorem run_keeps (window : Window) (deeds : List Deed) (place : Place)
    (hworkDir : ∀ name ∈ window.host.workDir, Path.Proper name)
    (hthere : window.host.files.kind? place ≠ none) (hsaves : SavesApart place window deeds)
    (hquits : QuitsUnopened window deeds)
    (hclean : Deed.command .quit ∈ deeds → window.settings.dirty = false) :
    (window.run deeds).host.files.kind? place = window.host.files.kind? place := by
  induction deeds generalizing window with
  | nil => rfl
  | cons deed deeds ih =>
      rcases after_keeps window deed place hworkDir hthere hsaves.1
        (fun hquit => hclean (List.mem_cons.mpr (Or.inl hquit.symm))) with ⟨hkind, hdir, hsettings⟩
      have hrest := ih (window.after deed) (by rw [hdir]; exact hworkDir)
        (by rw [hkind]; exact hthere) hsaves.2 hquits.2 ?_
      · exact hrest.trans hkind
      · -- There is still a quit to come, so this deed has opened no file.
        intro hquit
        rcases hsettings with hsame | hopens
        · rw [hsame]
          exact hclean (List.mem_cons_of_mem _ hquit)
        · exact absurd hquit (hquits.1 hopens)

theorem configured_state (window : Window) (values : Section) :
    (window.through (window.bench.configure values)).state
      = { window with bench := (window.bench.configure values).state } := by
  rw [through, Workbench.configure_notices]
  rfl

theorem fresh_state (host : Host) (user : User) (settings : Settings) :
    (fresh host user settings).state.host = host
      ∧ (fresh host user settings).state.settings = (settings.load host).1
      ∧ (fresh host user settings).state.tabs = .none := by
  unfold fresh
  rcases settings.load host with ⟨loaded, result⟩
  cases result with
  | error failure => exact ⟨rfl, rfl, rfl⟩
  | ok done =>
      simp only
      split
      · rw [configured_state]
        exact ⟨Workbench.configure_host _ _, rfl, rfl⟩
      · rw [configured_state]
        exact ⟨Workbench.configure_host _ _, rfl, rfl⟩

/-- A settings file that a window reports to make no sense is there, and it stays
    what it was through every run in which no source is saved in its place and no
    quit comes after a file was shown in a new tab. -/
theorem reported_file_kept (host : Host) (user : User) (settings : SettingsStore)
    (hdefaults : settings.defaults = Settings.defaults)
    (hworkDir : ∀ name ∈ host.workDir, Path.Proper name)
    (hreported : (fresh host user settings).state.settings.loadError ≠ none) :
    ∃ place entry, host.files.find host.workDir settings.path.text = .ok (place, entry)
      ∧ ∀ deeds, SavesApart place (fresh host user settings).state deeds →
        QuitsUnopened (fresh host user settings).state deeds →
          ((fresh host user settings).state.run deeds).host.files.kind? place
            = host.files.kind? place := by
  rcases fresh_state host user settings with ⟨hhost, hsettings, -⟩
  rw [hsettings] at hreported
  rcases Settings.load_reported settings host hdefaults hreported with
    ⟨⟨place, entry, hfind⟩, _, hclean⟩
  refine ⟨place, entry, hfind, fun deeds hsaves hquits => ?_⟩
  have hthere : host.files.kind? place ≠ none := by
    rw [FileTree.kind?, ((FileTree.find_eq_ok_iff host.workDir _ place entry).mp hfind).2]
    exact Option.some_ne_none _
  have hkept := run_keeps (fresh host user settings).state deeds place
    (by rw [hhost]; exact hworkDir) (by rw [hhost]; exact hthere) hsaves hquits
    (fun _ => by rw [hsettings]; exact hclean)
  rw [hhost] at hkept
  exact hkept

/-- A host with a settings file that is no JSON, and with a source. -/
def misconfigured : Host :=
  let tree : FileTree := ⟨[
    ("settings.json", .file (Utf8.encode "\x7bbad") false),
    ("a.go", .file (Utf8.encode "package a\n") false)]⟩
  .ofFiles tree

/-- A window that reports the settings file. -/
def reporting : Window :=
  let settings := SettingsStore.fresh (FilePath.parse "/settings.json") Settings.defaults true
  (fresh misconfigured ⟨[], []⟩ settings).state

theorem reporting_host : reporting.host = misconfigured :=
  (fresh_state misconfigured _ _).1

theorem reporting_loadError : reporting.settings.loadError ≠ none :=
  Option.isSome_iff_ne_none.mp (by decide +kernel)

/-- The settings file is left alone when the desk is quit first, and then a source is
    opened, changed and saved. -/
theorem reported_file_kept_saved :
    let deeds : List Deed :=
      [.command .quit, .openFile (.str "/a.go"), .edit (·.insert "x"), .command .save]
    (reporting.run deeds).host.files.kind? ["settings.json"]
        = some (.file (Utf8.encode "\x7bbad") false)
      ∧ (reporting.run deeds).host.files.kind? ["a.go"]
        = some (.file (Utf8.encode "xpackage a\n") false) := by
  intro deeds
  rcases reported_file_kept misconfigured _ _ rfl (fun _ hname => absurd hname List.not_mem_nil)
    reporting_loadError with ⟨place, entry, hfind, hkept⟩
  have hplace : place = (["settings.json"] : Place) := by
    have hfirst := congrArg (fun found => found.toOption.map (·.1)) hfind
    exact (Option.some.inj hfirst).symm
  subst hplace
  have hsaved : SavesApart (["settings.json"] : Place) reporting deeds := by
    refine ⟨fun h => ?_, fun h => ?_, fun h => ?_,
      fun _ editor target heditor htarget => ?_, trivial⟩
    · exact absurd h (by simp only [Deed.command.injEq, reduceCtorEq, not_false_eq_true])
    · exact absurd h (by simp only [reduceCtorEq, not_false_eq_true])
    · exact absurd h (by simp only [reduceCtorEq, not_false_eq_true])
    · -- The current editor is that of the source, and is saved to where the source is.
      have hsource : ((reporting.run (deeds.take 3)).tabs.editor?.map Editor.pathText)
          = some ("/a.go" : Text) := by decide +kernel
      have hpath : editor.pathText = "/a.go" := by
        rw [show (reporting.run (deeds.take 3)).tabs.editor? = some editor from heditor] at hsource
        exact Option.some.inj hsource
      have hname : (reporting.run (deeds.take 3)).host.canonicalPath "/a.go" = .ok "/a.go" :=
        Editor.eq_ok_of_toOption _ _ (by decide +kernel)
      unfold saveTarget at htarget
      rw [hpath] at htarget
      have hwalk : (reporting.run (deeds.take 3)).host.files.walk
          (reporting.run (deeds.take 3)).host.workDir .kept "/a.go" = .ok (.present ["a.go"]) :=
        Editor.eq_ok_of_toOption _ _ (by decide +kernel)
      rw [← Except.ok.inj (hname.symm.trans htarget)]
      intro hsame
      exact absurd (hwalk.symm.trans hsame) (by
        rw [Except.ok.injEq, Reached.present.injEq]
        decide)
  have hquit : QuitsUnopened reporting deeds := quitsUnopened_of_tail reporting deeds (by
    simp only [deeds, List.tail_cons, List.mem_cons, Deed.command.injEq, reduceCtorEq,
      List.not_mem_nil, or_self, not_false_eq_true])
  exact ⟨hkept deeds hsaved hquit, by decide +kernel⟩

/-- A source is opened and the desk is quit. Then the settings file is another one. -/
theorem opened_file_misleads :
    reporting.settings.loadError ≠ none
      ∧ reporting.host.files.kind? ["settings.json"] = some (.file (Utf8.encode "\x7bbad") false)
      ∧ (reporting.run [.openFile (.str "/a.go"), .command .quit]).host.files.kind?
          ["settings.json"] ≠ some (.file (Utf8.encode "\x7bbad") false) := by
  refine ⟨reporting_loadError, by decide +kernel, ?_⟩
  let opened := reporting.after (.openFile (.str "/a.go"))
  have hdata : opened.settings.data = [(Settings.queries, Settings.queryDefaults),
      ("window", [("last_open_dir", .str "/")])] := by with_unfolding_all rfl
  have hprinted : (opened.settings.payload?.map fun payload => payload.take 2)
      = some ("\x7b\n" : Text) := by
    rw [SettingsStore.payload?, hdata]
    cbv
  rcases Option.map_eq_some_iff.mp hprinted with ⟨payload, hpayload, hbegins⟩
  have hpath : opened.settings.path = FilePath.parse "/settings.json" := by decide +kernel
  have hdirty : opened.settings.dirty = true := by decide +kernel
  have hpersistent : opened.settings.persistent = true := by decide +kernel
  have hdisk := (after_leaves reporting (.openFile (.str "/a.go"))
    (by simp only [ne_eq, reduceCtorEq, not_false_eq_true])
    (by simp only [ne_eq, reduceCtorEq, not_false_eq_true])).1
  rw [reporting_host] at hdisk
  have hfiles : opened.host.files = misconfigured.files := hdisk.files
  have hworkDir : opened.host.workDir = [] := hdisk.workDir
  have hrefusals : opened.host.refusals = .none := hdisk.refusals
  have hclosed : opened.close.state.host.files
      = misconfigured.files.put ["settings.json"] (.file (Utf8.encode payload) false) := by
    refine close_writes opened payload misconfigured.files _ hdirty hpersistent hpayload ?_ ?_
    · rw [hfiles, hworkDir, hrefusals, hpath]
      rfl
    · rw [hworkDir, hrefusals, hpath]
      rfl
  have hkind : (opened.after (.command .quit)).host.files.kind? ["settings.json"]
      = some (.file (Utf8.encode payload) false) := by
    change opened.close.state.host.files.kind? _ = _
    rw [hclosed]
    rfl
  intro hsame
  have hpayloads := hkind.symm.trans hsame
  rw [Option.some.injEq, Entry.Kind.file.injEq] at hpayloads
  rw [Utf8.encode_injective _ _ hpayloads.1] at hbegins
  exact absurd hbegins (by decide)

end Window

end QueryDesk
