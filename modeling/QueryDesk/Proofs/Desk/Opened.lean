import QueryDesk.Proofs.Desk.Row

/-!
# What a deed opens

Most deeds do nothing to the row of tabs but show files in it: a file that is open
already is brought to the front, another one gets a tab of its own at the end, and the
cursor of the current editor may be put somewhere. Each of these deeds comes down to a
few such steps, so that what a step keeps, the deed keeps.

A file can be opened by a path that was given, by one that was chosen in a dialog, or by
one that the workbench tells. These are the paths that a deed names.

The disk is one of the things kept. The settings are another, unless a file was shown in
a new tab: they then know the directory it is in. An operation can come in parts, and each
part may open a file. What the parts leave is put together by counting tabs. None of them
takes a tab away, so where no tab is added in the end, none was added on the way.

## Main definitions

* `Tells`: Notices tell a place in the file of a path.
* `Window.Names`: The paths by which a deed opens files.
* `Window.Browses`: A window reached by showing files in it.
* `Deed.Shows`: A deed that does no more than that.
* `Window.Leaves`: The disk is left as it is, and so are the settings unless a tab
  is added.

## Theorems

* `set_lastOpenDir`: The directory of a file can always be kept in the settings.
* `shows_or`, `edit_cases`: What a deed can be, and what a change does.
* `openFile_cases`: What opening a file can lead to.
* `after_browses`: A deed that shows files opens those of the paths it names.
* `Browses.stays`: What showing files leaves in the row of tabs, and what it adds.
* `after_leaves`: What every deed leaves that does not write.
-/

namespace QueryDesk

/-- The notices tell a place in the file of a path. -/
def Tells (notices : List Notice) (path : Text) : Prop :=
  ∃ line column, Notice.navigate path line column ∈ notices

namespace Window

/-- The paths by which a deed opens files. -/
def Names (window : Window) : Deed → Text → Prop
  | .arguments names, path => ∃ paths, window.host.existingFiles names = .ok paths ∧ path ∈ paths
  | .openFile value, path => value.asText = .ok path
  | .goTo value _ _, path => value.asText = .ok path
  | .command .openFile, path => (window.user.answers.headD .null).asText = .ok path
  | .command (.query mode), path =>
      Tells (window.bench.run mode.name (window.tabs.editor?.map Editor.target)).notices path
  | .command .setScope, path => Tells window.bench.setScope.notices path
  | .gesture gesture, path => Tells (window.bench.react gesture).notices path
  | .drain, path => Tells window.bench.drain.notices path
  | _, _ => False

/-- A window is reached from another one by showing files in it. -/
inductive Browses (names : Text → Prop) : Window → Window → Prop
  /-- The tabs and the settings are the same, and so is the disk. -/
  | calm (window after : Window) (hdisk : window.host.SameDisk after.host)
      (htabs : after.tabs = window.tabs) (hsettings : after.settings = window.settings) :
      Browses names window after
  | opened (window : Window) (path : Text) (hpath : names path) :
      Browses names window (window.openFile path).state
  | moved (window : Window) (editor : Editor) (line column : Int)
      (heditor : window.tabs.editor? = some editor) :
      Browses names window
        { window with tabs := window.tabs.setEditor (editor.goTo line column) }
  | selected (window : Window) (index : Int) :
      Browses names window { window with tabs := window.tabs.select index }
  | trans (first second third : Window) (h : Browses names first second)
      (h' : Browses names second third) : Browses names first third

end Window

/-- The deed does nothing to the row of tabs but show files in it. -/
def Deed.Shows : Deed → Prop
  | .edit _ | .newTab | .closeTab _ | .command .save | .command .quit => False
  | _ => True

/-- A deed shows files, or it is one of a few that do something else to the row. -/
theorem Deed.shows_or (deed : Deed) :
    deed.Shows ∨ (∃ change, deed = .edit change) ∨ deed = .newTab
      ∨ (∃ index, deed = .closeTab index) ∨ deed = .command .save ∨ deed = .command .quit := by
  cases deed with
  | edit change => exact Or.inr (Or.inl ⟨change, rfl⟩)
  | newTab => exact Or.inr (Or.inr (Or.inl rfl))
  | closeTab index => exact Or.inr (Or.inr (Or.inr (Or.inl ⟨index, rfl⟩)))
  | command command =>
      cases command with
      | save => exact Or.inr (Or.inr (Or.inr (Or.inr (Or.inl rfl))))
      | quit => exact Or.inr (Or.inr (Or.inr (Or.inr (Or.inr rfl))))
      | _ => exact Or.inl trivial
  | _ => exact Or.inl trivial

/-- What a change of the current editor does to a window without one, which is nothing, and
    to one that has one. -/
theorem Window.edit_cases (window : Window) (change : Editor → Editor) :
    window.after (.edit change) = window
      ∨ ∃ editor, window.tabs.editor? = some editor
        ∧ window.after (.edit change)
          = { window with tabs := window.tabs.setEditor (change editor) } := by
  cases heditor : window.tabs.editor? with
  | none =>
      refine Or.inl ?_
      simp only [after, edit, heditor]
  | some editor =>
      refine Or.inr ⟨editor, rfl, ?_⟩
      simp only [after, edit, heditor]

/-! ## Opening one file -/

theorem set_lastOpenDir (store : SettingsStore) (value : Json) :
    ∃ settings changed, SettingsStore.set store Settings.lastOpenDir value
      = (settings, .ok changed) := by
  have hkey : SettingsKey.split Settings.lastOpenDir = .ok ("window", "last_open_dir") := by rfl
  unfold SettingsStore.set
  simp only [hkey]
  rw [if_neg (by decide)]
  split
  · exact ⟨_, _, rfl⟩
  · exact ⟨_, _, rfl⟩

namespace Window

/-- What opening a file can lead to. It shows no file, and leaves the tabs and the settings;
    or the file is open, and its tab becomes current; or it is loaded into a new tab. -/
theorem openFile_cases (window : Window) (path : Text) :
    ((∀ index, (window.openFile path).result ≠ .ok (some index))
        ∧ window.Quiet (window.openFile path).state)
      ∨ (∃ real index, window.host.realPath path = .ok real
        ∧ window.tabs.indexOf? real = some index
        ∧ window.openFile path
          = .pure { window with tabs := window.tabs.select index } (some index))
      ∨ ∃ real editor known settings, window.host.realPath path = .ok real
        ∧ window.tabs.indexOf? real = none
        ∧ Editor.empty.load window.host path = (editor, .ok known)
        ∧ window.openFile path
          = .pure { window with tabs := window.tabs.addCurrent ⟨editor, known⟩, settings }
            (some window.tabs.all.length) := by
  unfold openFile
  cases hreal : window.host.realPath path with
  | error failure =>
      exact Or.inl ⟨fun _ => by simp only [Outcome.fail, ne_eq, reduceCtorEq, not_false_eq_true],
        .refl window⟩
  | ok real =>
      cases hindex : window.tabs.indexOf? real with
      | some index => exact Or.inr (Or.inl ⟨real, index, rfl, hindex, by simp only [hindex]⟩)
      | none =>
          rcases hload : Editor.empty.load window.host path with ⟨editor, outcome⟩
          cases outcome with
          | error failure =>
              refine Or.inl ?_
              simp only [hindex]
              by_cases hrefused : failure.isRefusedFile = true
              · rw [if_pos hrefused]
                exact ⟨fun _ => by simp only [Outcome.pure, ne_eq, Except.ok.injEq,
                  reduceCtorEq, not_false_eq_true], see_quiet window _⟩
              · rw [if_neg hrefused]
                exact ⟨fun _ => by simp only [Outcome.fail, ne_eq, reduceCtorEq,
                  not_false_eq_true], .refl window⟩
          | ok known =>
              rcases set_lastOpenDir window.settings (.str (Path.dirName known)) with
                ⟨settings, changed, hset⟩
              refine Or.inr (Or.inr ⟨real, editor, known, settings, rfl, hindex, rfl, ?_⟩)
              simp only [hindex, hset]

/-- The tab that a file was opened in is current. -/
theorem openFile_current (window : Window) (path : Text) (index : Nat)
    (h : (window.openFile path).result = .ok (some index)) :
    (window.openFile path).state.tabs.current = some index := by
  rcases openFile_cases window path with ⟨hno, -⟩ | ⟨real, found, -, hindex, heq⟩
    | ⟨real, editor, known, settings, -, -, -, heq⟩
  · exact absurd h (hno index)
  · rw [heq] at h ⊢
    rw [← Option.some.inj (Except.ok.inj h)]
    exact Tabs.select_current _ _ (Tabs.indexOf?_lt _ _ _ hindex)
  · rw [heq] at h ⊢
    rw [← Option.some.inj (Except.ok.inj h)]
    exact Tabs.addCurrent_current _ _

/-! ## Deeds that show files -/

variable {window : Window} {names : Text → Prop} {α β : Type}

theorem Browses.refl (window : Window) : Browses names window window :=
  .calm window window (.refl _) rfl rfl

theorem Browses.of_bench {bench : Workbench} (h : window.host.SameDisk bench.host) :
    Browses names window { window with bench } :=
  .calm window _ h rfl rfl

theorem Quiet.browses {after : Window} (h : window.Quiet after) : Browses names window after := by
  refine .calm window after ?_ h.tabs h.settings
  rw [h.host]
  exact .refl _

theorem Browses.andThen {first : Outcome Window α} {next : Window → α → Outcome Window β}
    (hfirst : Browses names window first.state)
    (hnext : ∀ value, first.result = .ok value →
      Browses names first.state (next first.state value).state) :
    Browses names window (first.andThen next).state := by
  unfold Outcome.andThen
  split
  · exact hfirst
  · next value hvalue => exact .trans _ _ _ hfirst (hnext value hvalue)

theorem openValue_browses (window : Window) (value : Json)
    (h : ∀ path, value.asText = .ok path → names path) :
    Browses names window (window.openValue value).state := by
  unfold openValue
  split
  · next path hpath => exact .opened window path (h path hpath)
  · exact .refl window

theorem openFiles_browses (window : Window) (paths : List Text) (h : ∀ path ∈ paths, names path) :
    Browses names window (window.openFiles paths).state := by
  induction paths generalizing window with
  | nil => exact .refl window
  | cons path paths ih =>
      refine Browses.andThen (.opened window path (h path List.mem_cons_self)) fun _ _ => ?_
      exact ih _ fun other hother => h other (List.mem_cons_of_mem path hother)

theorem goTo_browses (window : Window) (path : Text) (line column : Int) (h : names path) :
    Browses names window (window.goTo path line column).state := by
  refine Browses.andThen (.opened window path h) fun index hindex => ?_
  split
  · exact .refl _
  · next tab htab =>
      rcases Option.bind_eq_some_iff.mp htab with ⟨number, rfl, hget⟩
      refine .moved _ tab.editor line column ?_
      rw [Tabs.editor?, openFile_current window path number hindex, Option.bind_some, hget]
      rfl

theorem goToValues_browses (window : Window) (value line column : Json)
    (h : ∀ path, value.asText = .ok path → names path) :
    Browses names window (window.goToValues value line column).state := by
  have hfail : ∀ path failure, names path →
      Browses names window (window.openButFail path failure).state := by
    intro path failure hpath
    refine Browses.andThen (.opened window path hpath) fun index _ => ?_
    split
    · exact .refl _
    · exact .refl _
  unfold goToValues
  split
  · exact .refl window
  · next path _ _ hpath _ _ => exact goTo_browses window _ _ _ (h path hpath)
  · next path _ hpath _ => exact hfail _ _ (h path hpath)
  · next path _ hpath _ _ => exact hfail _ _ (h path hpath)

theorem openDialog_browses (window : Window)
    (h : ∀ path, (window.user.answers.headD .null).asText = .ok path → names path) :
    Browses names window window.openDialog.state := by
  unfold openDialog
  split
  · exact .refl window
  · have hasked : ∀ user, Browses names window (window.withUser user) := fun user =>
      .calm window _ (.refl _) rfl rfl
    simp only
    split
    · exact .trans _ _ _ (hasked _) (openValue_browses _ _ h)
    · exact hasked _

theorem act_browses (window : Window) (notice : Notice)
    (h : ∀ path line column, notice = .navigate path line column → names path) :
    Browses names window (window.act notice).state := by
  cases notice with
  | status text duration => exact (showMessage_quiet window text duration).browses
  | debug lines => exact (appendLog_quiet window lines false).browses
  | navigate path line column => exact goTo_browses window path line column (h path _ _ rfl)
  | reveal height => exact .calm window _ (.refl _) rfl rfl
  | finished result => exact .refl window
  | focused widget => exact .refl window
  | resized dock height => exact .refl window

theorem actAll_browses (window : Window) (notices : List Notice)
    (h : ∀ path, Tells notices path → names path) :
    Browses names window (window.actAll notices).state := by
  induction notices generalizing window with
  | nil => exact .refl window
  | cons notice notices ih =>
      refine Browses.andThen (act_browses window notice fun path line column hnotice => ?_)
        fun _ _ => ih _ fun path hpath => ?_
      · exact h path ⟨line, column, hnotice ▸ List.mem_cons_self⟩
      · rcases hpath with ⟨line, column, hmem⟩
        exact h path ⟨line, column, List.mem_cons_of_mem _ hmem⟩

/-- What the workbench leads to opens the files of the places it tells. -/
theorem through_browses (window : Window) (outcome : Outcome Workbench α)
    (hdisk : window.host.SameDisk outcome.state.host)
    (h : ∀ path, Tells outcome.notices path → names path) :
    Browses names window (window.through outcome).state := by
  have hbench : Browses names window { window with bench := outcome.state } := .of_bench hdisk
  unfold through
  exact Browses.andThen (.trans _ _ _ hbench (actAll_browses _ _ h)) fun _ _ => .refl _

theorem sameDisk_of_host {bench : Workbench} {outcome : Outcome Workbench α}
    (h : outcome.state.host = bench.host) : bench.host.SameDisk outcome.state.host := by
  rw [h]
  exact .refl _

/-- A deed that shows files opens those of the paths it names. -/
theorem after_browses (window : Window) (deed : Deed) (hshows : deed.Shows) :
    Browses (window.Names deed) window (window.after deed) := by
  cases deed with
  | edit change => exact absurd hshows not_false
  | newTab => exact absurd hshows not_false
  | closeTab index => exact absurd hshows not_false
  | arguments names =>
      simp only [after]
      split
      · exact .refl window
      · next paths hpaths =>
          exact openFiles_browses window paths fun path hpath => ⟨paths, hpaths, hpath⟩
  | openFile value => exact openValue_browses window value fun _ h => h
  | goTo value line column => exact goToValues_browses window value line column fun _ h => h
  | select index => exact .selected window index
  | work => exact .of_bench (Workbench.work_sameDisk window.bench _)
  | drain =>
      exact through_browses window _ (sameDisk_of_host (Workbench.collect_host window.bench _))
        fun _ h => h
  | gesture gesture => exact through_browses window _ (.refl _) fun _ h => h
  | tick milliseconds => exact (tickValue_quiet window milliseconds).browses
  | message text duration => exact (showMessage_quiet window text duration).browses
  | reveal height => exact (revealValue_quiet window height).browses
  | log lines raised => exact (appendLog_quiet window lines raised).browses
  | command command =>
      cases command with
      | save => exact absurd hshows not_false
      | quit => exact absurd hshows not_false
      | openFile => exact openDialog_browses window fun _ h => h
      | query mode =>
          exact through_browses window _ (sameDisk_of_host (Workbench.run_host window.bench _ _))
            fun _ h => h
      | setScope =>
          exact through_browses window _
            (sameDisk_of_host (Workbench.askScope_host _ _ window.bench)) fun _ h => h

/-! ## The disk and the settings -/

/-- The disk is left as it is, no tab is taken away, and the settings are the same
    unless a tab is added. -/
structure Leaves (window after : Window) : Prop where
  disk : window.host.SameDisk after.host
  tabs : window.tabs.all.length ≤ after.tabs.all.length
  settings : after.tabs.all.length = window.tabs.all.length → after.settings = window.settings

theorem Leaves.of_eq {after : Window} (hdisk : window.host.SameDisk after.host)
    (htabs : after.tabs.all.length = window.tabs.all.length)
    (hsettings : after.settings = window.settings) : window.Leaves after :=
  ⟨hdisk, Nat.le_of_eq htabs.symm, fun _ => hsettings⟩

theorem Leaves.trans {first second third : Window} (h : first.Leaves second)
    (h' : second.Leaves third) : first.Leaves third where
  disk := h.disk.trans h'.disk
  tabs := Nat.le_trans h.tabs h'.tabs
  settings hsame := by
    have hfirst := h.tabs
    have hsecond := h'.tabs
    rw [h'.settings (by omega), h.settings (by omega)]

/-- A file that is opened changes the settings only with a new tab. -/
theorem openFile_leaves (window : Window) (path : Text) :
    window.Leaves (window.openFile path).state := by
  rcases openFile_cases window path with ⟨-, hquiet⟩ | ⟨real, index, -, -, heq⟩
    | ⟨real, editor, known, settings, -, -, -, heq⟩
  · refine .of_eq ?_ (by rw [hquiet.tabs]) hquiet.settings
    rw [hquiet.host]
    exact .refl _
  · rw [heq]
    exact .of_eq (.refl _) (congrArg List.length (Tabs.select_all _ _)) rfl
  · rw [heq]
    have hlength : (window.tabs.addCurrent ⟨editor, known⟩).all.length
        = window.tabs.all.length + 1 := by
      rw [Tabs.addCurrent_all, List.length_append, List.length_singleton]
    refine ⟨.refl _, ?_, fun hsame => ?_⟩
    · change _ ≤ (window.tabs.addCurrent ⟨editor, known⟩).all.length
      omega
    · change (window.tabs.addCurrent ⟨editor, known⟩).all.length = _ at hsame
      omega

/-- Showing files leaves the disk, and the settings unless a tab is added. -/
theorem Browses.leaves {after : Window} (h : Browses names window after) : window.Leaves after := by
  induction h with
  | calm window after hdisk htabs hsettings => exact .of_eq hdisk (by rw [htabs]) hsettings
  | opened window path _ => exact openFile_leaves window path
  | moved window editor line column _ => exact .of_eq (.refl _) (Tabs.setEditor_length _ _) rfl
  | selected window index =>
      exact .of_eq (.refl _) (congrArg List.length (Tabs.select_all _ _)) rfl
  | trans _ _ _ _ _ hfirst hsecond => exact hfirst.trans hsecond

/-- A file that is opened leaves what is in the row, and is added to it if it is loaded. -/
theorem openFile_stays {Fresh : Editor.Face → Prop} (window : Window) (path : Text)
    (hfresh : ∀ editor known, Editor.empty.load window.host path = (editor, .ok known) →
      Fresh editor.face) :
    Tabs.Stays Fresh window.tabs (window.openFile path).state.tabs := by
  rcases openFile_cases window path with ⟨-, hquiet⟩ | ⟨real, index, -, -, heq⟩
    | ⟨real, editor, known, settings, -, -, hload, heq⟩
  · exact .of_faces (by rw [hquiet.tabs])
  · rw [heq]
    exact .of_faces (Tabs.faces_select _ _)
  · rw [heq]
    exact .addCurrent (hfresh editor known hload)

/-- Showing files leaves what is in the row, and adds what is loaded from the same disk by
    the paths named. -/
theorem Browses.stays {Fresh : Editor.Face → Prop} {after : Window}
    (h : Browses names window after)
    (hfresh : ∀ host path editor known, window.host.SameDisk host → names path →
      Editor.empty.load host path = (editor, .ok known) → Fresh editor.face) :
    Tabs.Stays Fresh window.tabs after.tabs := by
  induction h with
  | calm window after _ htabs _ => exact .of_faces (by rw [htabs])
  | opened window path hpath =>
      exact openFile_stays window path fun editor known => hfresh _ _ editor known (.refl _) hpath
  | moved window editor line column heditor =>
      exact .of_faces (Tabs.faces_setEditor_self _ editor _ heditor (editor.goTo_face line column))
  | selected window index => exact .of_faces (Tabs.faces_select _ _)
  | trans first second third h _ hfirst hsecond =>
      exact (hfirst hfresh).trans (hsecond fun host path editor known hdisk =>
        hfresh host path editor known (h.leaves.disk.trans hdisk))

/-- A deed that is neither a save nor a quit leaves the disk as it is, and the
    settings unless it opens a file. -/
theorem after_leaves (window : Window) (deed : Deed) (hsave : deed ≠ .command .save)
    (hquit : deed ≠ .command .quit) :
    window.host.SameDisk (window.after deed).host
      ∧ ((window.after deed).settings = window.settings ∨ window.Opens deed) := by
  rcases deed.shows_or with hshows | ⟨change, rfl⟩ | rfl | ⟨index, rfl⟩ | rfl | rfl
  · have h := (after_browses window deed hshows).leaves
    refine ⟨h.disk, ?_⟩
    rcases Nat.lt_or_ge window.tabs.all.length (window.after deed).tabs.all.length with hmore | hno
    · exact Or.inr ⟨fun hnew => by rw [hnew] at hshows; exact hshows, hmore⟩
    · exact Or.inl (h.settings (Nat.le_antisymm hno h.tabs))
  · rcases edit_cases window change with hsame | ⟨editor, -, hchanged⟩
    · rw [hsame]
      exact ⟨.refl _, Or.inl rfl⟩
    · rw [hchanged]
      exact ⟨.refl _, Or.inl rfl⟩
  · exact ⟨.refl _, Or.inl rfl⟩
  · simp only [after, closeTab]
    split
    · exact ⟨.refl _, Or.inl rfl⟩
    split
    · split
      · exact ⟨.refl _, Or.inl rfl⟩
      · exact ⟨.refl _, Or.inl rfl⟩
    · exact ⟨.refl _, Or.inl rfl⟩
  · exact absurd rfl hsave
  · exact absurd rfl hquit

end Window

end QueryDesk
