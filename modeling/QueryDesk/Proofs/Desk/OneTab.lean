import QueryDesk.Proofs.Desk.Consent
import QueryDesk.Proofs.Host.Refill

/-!
# One tab for each file

Whether a file is open already is found out by its real path, and the path that its editor
keeps is the name under which the desk knows it. The two are worked out in different ways,
and still they are the same for a path that is taken as it is written: both are the path of
the place where the file is. So a file that is open is always found, by whatever path it is
asked for again, and no file gets a second tab.

Saves write over the files that are open. This changes what is in them, but no path leads
elsewhere afterwards, so that the paths kept by the editors stay the real paths of their files.

A path that names a home directory is taken for another one when its name is worked out. It
can do so without beginning with the mark for it, because a dot before it is dropped. The file
is then never found to be open, and gets one tab after the other.

## Main definitions

* `Path.Verbatim`: A path that is taken as it is written.
* `Deed.Regular`: A deed that neither ends the desk nor brings in a text without a file.
* `Window.NamesVerbatim`: Every file along a run is opened by such a path.
* `Window.ReadBy`, `Window.ReadAlong`: A deed reads a file, and one of a run does.
* `Window.OnePerFile`: Each tab has a file of its own.

## Theorems

* `load_face`, `save_place`: What loading a file, and saving it, makes known of it.
* `Browses.onePerFile`: Showing files gives each of them one tab.
* `step_onePerFile`, `run_onePerFile`: What a deed, and a run, keep.
* `openFile_open`, `goTo_open`: A file that is open is shown in its tab.
* `one_tab_per_file`: The tabs of a window after any run.
* `hidden_home_misleads`: A file in two tabs.
-/

namespace QueryDesk

/-- The path is taken as it is written: there are no blanks around it, and it begins with no
    home directory. -/
structure Path.Verbatim (path : Text) : Prop where
  trimmed : Text.trim path = path
  noHome : ¬ (FilePath.parse path).NamesHome

theorem FilePath.not_namesHome (path : FilePath)
    (h : path.names.head?.bind (·.head?) ≠ some '~') : ¬ path.NamesHome := by
  rintro ⟨-, name, rest, hnames, htilde⟩
  rw [hnames, List.head?_cons, Option.bind_some] at h
  exact h htilde

/-- The deed neither ends the desk nor puts up a tab without a file, and it changes an editor
    only by hand. -/
def Deed.Regular : Deed → Prop
  | .newTab | .command .quit => False
  | deed => deed.ByHand

/-- The paths of the editors in a row of tabs. -/
def Tabs.paths (tabs : Tabs) : List (Option Text) :=
  tabs.all.map (·.editor.path)

theorem Tabs.paths_eq (tabs : Tabs) : tabs.paths = tabs.faces.map (·.path) := by
  rw [faces, List.map_map]
  rfl

theorem Tabs.paths_of_faces {tabs after : Tabs} (h : after.faces = tabs.faces) :
    after.paths = tabs.paths := by
  rw [paths_eq, paths_eq, h]

theorem Tabs.paths_setEditor (tabs : Tabs) (editor changed : Editor)
    (heditor : tabs.editor? = some editor) (h : changed.path = editor.path) :
    (tabs.setEditor changed).paths = tabs.paths := by
  rcases faces_setEditor tabs editor changed heditor with ⟨k, -, hget, hset⟩
  have hpath : tabs.paths[k]? = some changed.path := by
    rw [paths_eq, List.getElem?_map, hget, h]
    rfl
  rcases List.getElem?_eq_some_iff.mp hpath with ⟨hlt, hpath⟩
  rw [paths_eq (tabs.setEditor changed), hset, List.map_set, ← paths_eq]
  change tabs.paths.set k changed.path = tabs.paths
  rw [← hpath]
  exact List.set_getElem_self hlt

theorem Host.SameDisk.refills {host after : Host} (h : host.SameDisk after) :
    host.Refills after where
  files := by
    rw [h.files]
    exact .refl _
  workDir := h.workDir

namespace Editor

/-- A file that was loaded has no changes. -/
theorem load_unmodified (editor loaded : Editor) (host : Host) (path known : Text)
    (h : editor.load host path = (loaded, .ok known)) : loaded.buffer.modified = false := by
  unfold load at h
  split at h
  · exact absurd h failed_ne_ok
  · rw [(rename_buffer _ loaded host path _ h).1]
    rfl

/-- A file that was loaded by a path taken as it is written is shown as it is on the disk,
    and its editor knows it by its real path, which is that of its place. -/
theorem load_face (editor loaded : Editor) (host : Host) (path known : Text)
    (hsound : host.Sound) (hpath : Path.Verbatim path)
    (h : editor.load host path = (loaded, .ok known)) :
    ∃ place bytes executable,
      host.files.find host.workDir path = .ok (place, .file bytes executable)
        ∧ host.HasFile place ∧ host.realPath path = .ok (Path.ofPlace place)
        ∧ loaded.face = ⟨some (Path.ofPlace place), shown bytes, false⟩ := by
  rcases load_ok editor loaded host path known h with
    ⟨place, bytes, executable, hfind, htext, hknown, hloaded⟩
  rcases Host.hasFile_of_find hsound path place bytes executable hfind with ⟨hplace, hreal⟩
  have hwalk := ((FileTree.find_eq_ok_iff host.workDir path place _).mp hfind).1
  have hname := Host.canonicalPath_of_walk hsound path place hwalk hpath.trimmed hpath.noHome
  rw [hknown, Except.ok.injEq] at hname
  refine ⟨place, bytes, executable, hfind, hplace, hreal, ?_⟩
  rw [face, hloaded, hname, htext, load_unmodified editor loaded host path known h]

/-- A save of a file under the path of its place writes over this file, and the editor knows
    it by the same path afterwards. -/
theorem save_place (editor saved : Editor) (host after : Host) (place : Place)
    (outcome : Except Failure SavedFile) (hsound : host.Sound) (htidy : host.Tidy)
    (hplace : host.HasFile place) (hpath : editor.path = some (Path.ofPlace place))
    (h : editor.save host (Path.ofPlace place) = (after, saved, outcome)) :
    host.Refills after ∧ ∀ file, outcome = .ok file → saved.path = editor.path := by
  have hne := Path.ofPlace_ne_nil place
  have hcases := save_cases editor saved host after _ outcome h
  rw [Text.orElse, if_neg fun hnil => hne (List.isEmpty_iff.mp hnil),
    Host.canonicalPath_hasFile hsound htidy hplace] at hcases
  refine ⟨?_, fun file hfile => ?_⟩
  · rcases hcases with ⟨rfl, -⟩ | ⟨target, result, hname, -, hwrite, -⟩
    · exact (Host.SameDisk.refl _).refills
    · rw [← Except.ok.inj hname] at hwrite
      exact Host.writeSource_refills place _ _ result hplace hwrite
  · -- The file that was saved is the one the editor knows, so it is not known anew.
    subst hfile
    have htarget : file.path = Path.ofPlace place := by
      rcases hcases with ⟨-, ⟨failure, hfailed⟩ | ⟨hnothing, -⟩⟩
        | ⟨target, result, hname, -, -, hgives, -⟩
      · exact absurd hfailed (by simp only [reduceCtorEq, not_false_eq_true])
      · exact absurd (Except.ok.inj hnothing) hne
      · rw [(hgives file rfl).2, Except.ok.inj hname]
    rcases save_saved editor saved host after _ file h with ⟨-, rfl⟩ | ⟨-, -, -, hsettled⟩
    · rfl
    · rw [hsettled (by rw [hpath, htarget])]
      rfl

theorem stroke_path (editor : Editor) (stroke : Stroke) :
    (editor.stroke stroke).path = editor.path := by
  cases stroke with
  | select start stop => rfl
  | goTo line column => rfl
  | insert text => rfl

end Editor

namespace Window

/-- Every deed along the run opens files by paths that are taken as they are written. -/
def NamesVerbatim : Window → List Deed → Prop
  | _, [] => True
  | window, deed :: deeds =>
      (∀ path, window.Names deed path → Path.Verbatim path)
        ∧ NamesVerbatim (window.after deed) deeds

/-- What an editor shows was read from a file that a path the deed names leads to, and the
    editor knows the file by the real path of this path. -/
def ReadBy (window : Window) (deed : Deed) (face : Editor.Face) : Prop :=
  ∃ path place bytes executable, window.Names deed path
    ∧ window.host.files.find window.host.workDir path = .ok (place, .file bytes executable)
    ∧ window.host.realPath path = .ok (Path.ofPlace place)
    ∧ face = ⟨some (Path.ofPlace place), Editor.shown bytes, false⟩

/-- Some deed along the run read a file that is known by the path. -/
def ReadAlong : Window → List Deed → Option Text → Prop
  | _, [], _ => False
  | window, deed :: deeds, path =>
      (∃ face, window.ReadBy deed face ∧ face.path = path)
        ∨ ReadAlong (window.after deed) deeds path

/-- Each tab has a file of its own, and knows it by the path of its place. -/
structure OnePerFile (window : Window) : Prop where
  sound : window.host.Sound
  tidy : window.host.Tidy
  known : ∀ path ∈ window.tabs.paths,
    ∃ place, window.host.HasFile place ∧ path = some (Path.ofPlace place)
  distinct : window.tabs.paths.Nodup

variable {window after : Window} {names : Text → Prop}

theorem OnePerFile.refill (h : window.OnePerFile) (hrefills : window.host.Refills after.host)
    (hsub : after.tabs.paths.Sublist window.tabs.paths) : after.OnePerFile where
  sound := h.sound.refill hrefills
  tidy := h.tidy.refill hrefills
  known path hpath := by
    rcases h.known path (hsub.subset hpath) with ⟨place, hplace, heq⟩
    exact ⟨place, hplace.refill hrefills, heq⟩
  distinct := h.distinct.sublist hsub

theorem OnePerFile.of_paths (h : window.OnePerFile) (hdisk : window.host.SameDisk after.host)
    (hpaths : after.tabs.paths = window.tabs.paths) : after.OnePerFile :=
  h.refill hdisk.refills (by rw [hpaths])

-- A file that is not found among the tabs is in none of them.
theorem not_mem_paths (tabs : Tabs) (path : Text) (h : tabs.indexOf? path = none) :
    some path ∉ tabs.paths := by
  intro hmem
  rcases List.mem_map.mp hmem with ⟨tab, htab, hpath⟩
  have hno := List.findIdx?_eq_none_iff.mp h tab htab
  rw [hpath, beq_self_eq_true] at hno
  exact Bool.noConfusion hno

/-- A file that is opened gets a tab only if it has none. -/
theorem openFile_onePerFile (h : window.OnePerFile) (path : Text) (hpath : Path.Verbatim path) :
    (window.openFile path).state.OnePerFile := by
  rcases openFile_cases window path with ⟨-, hquiet⟩ | ⟨real, index, -, -, heq⟩
    | ⟨real, editor, known, settings, hreal, hindex, hload, heq⟩
  · exact h.of_paths (by rw [hquiet.host]; exact .refl _) (by rw [hquiet.tabs])
  · rw [heq]
    exact h.of_paths (.refl _) (Tabs.paths_of_faces (Tabs.faces_select _ _))
  -- The real path, by which no tab was found, is the one that the new tab keeps.
  rcases Editor.load_face _ editor _ path known h.sound hpath hload with
    ⟨place, bytes, executable, -, hplace, hsame, hface⟩
  rw [hreal, Except.ok.injEq] at hsame
  have hpaths : (window.tabs.addCurrent ⟨editor, known⟩).paths
      = window.tabs.paths ++ [some (Path.ofPlace place)] := by
    rw [Tabs.paths_eq, Tabs.faces_addCurrent, hface, List.map_append, ← Tabs.paths_eq]
    rfl
  rw [heq]
  refine ⟨h.sound, h.tidy, fun other hother => ?_, ?_⟩
  · change other ∈ (window.tabs.addCurrent ⟨editor, known⟩).paths at hother
    rw [hpaths] at hother
    rcases List.mem_append.mp hother with hold | hnew
    · exact h.known other hold
    · exact ⟨place, hplace, List.mem_singleton.mp hnew⟩
  · change (window.tabs.addCurrent ⟨editor, known⟩).paths.Nodup
    rw [hpaths, ← List.concat_eq_append]
    exact h.distinct.concat (hsame ▸ not_mem_paths window.tabs real hindex)

/-- Showing files gives each of them one tab. -/
theorem Browses.onePerFile (h : Browses names window after)
    (hnames : ∀ path, names path → Path.Verbatim path) (hone : window.OnePerFile) :
    after.OnePerFile := by
  induction h with
  | calm window after hdisk htabs _ => exact hone.of_paths hdisk (by rw [htabs])
  | opened window path hpath => exact openFile_onePerFile hone path (hnames path hpath)
  | moved window editor line column heditor =>
      exact hone.of_paths (.refl _) (Tabs.paths_setEditor _ editor _ heditor rfl)
  | selected window index =>
      exact hone.of_paths (.refl _) (Tabs.paths_of_faces (Tabs.faces_select _ _))
  | trans first second third _ _ hfirst hsecond => exact hsecond (hfirst hone)

/-- A save writes over the file of the current editor, and nothing else. -/
theorem save_refills (h : window.OnePerFile) :
    window.host.Refills window.save.state.host
      ∧ window.save.state.tabs.paths = window.tabs.paths := by
  rcases save_step window with ⟨-, hsame⟩ | ⟨editor, saved, outcome, heditor, hsave, -, hgave⟩
  · rw [hsame]
    exact ⟨(Host.SameDisk.refl _).refills, rfl⟩
  -- The current editor knows its file, so nobody is asked where to save it.
  rcases Tabs.editor?_eq_some _ editor heditor with ⟨k, tab, -, hget, rfl⟩
  rcases h.known _ (List.mem_map_of_mem (List.mem_of_getElem? hget)) with ⟨place, hplace, hpath⟩
  have htarget : (window.saveTarget tab.editor).1 = Path.ofPlace place := by
    have htext : tab.editor.pathText = Path.ofPlace place := by
      rw [Editor.pathText, hpath]
      rfl
    rw [saveTarget, htext, if_neg fun hnil => Path.ofPlace_ne_nil place (List.isEmpty_iff.mp hnil)]
  rw [htarget] at hsave
  rcases Editor.save_place _ saved _ _ place outcome h.sound h.tidy hplace hpath hsave with
    ⟨hrefills, hsaved⟩
  refine ⟨hrefills, ?_⟩
  rcases hgave with ⟨⟨file, rfl⟩, htabs⟩ | ⟨-, htabs⟩
  · rw [htabs]
    exact Tabs.paths_setEditor _ _ saved heditor (hsaved file rfl)
  · rw [htabs]

theorem edit_paths (window : Window) (stroke : Stroke) :
    (window.after (.edit fun editor => editor.stroke stroke)).tabs.paths = window.tabs.paths := by
  rcases edit_cases window fun editor => editor.stroke stroke with
    hsame | ⟨editor, heditor, hchanged⟩
  · rw [hsame]
  · rw [hchanged]
    exact Tabs.paths_setEditor _ editor _ heditor (editor.stroke_path stroke)

theorem closeTab_paths (window : Window) (index : Int) :
    (window.closeTab index).tabs.paths = window.tabs.paths
      ∨ ∃ k : Nat, index = k ∧ k < window.tabs.all.length
        ∧ (window.closeTab index).tabs.paths = window.tabs.paths.eraseIdx k := by
  rcases closeTab_cases window index with htabs | ⟨k, tab, hindex, htab, hall, -⟩
  · exact Or.inl (by rw [htabs])
  · refine Or.inr ⟨k, hindex, (List.getElem?_eq_some_iff.mp htab).1, ?_⟩
    rw [Tabs.paths_eq, Tabs.faces_eraseIdx hall, Tabs.paths_eq, List.eraseIdx_map]

/-! ## Runs -/

-- Only a save writes files.
theorem regular_disk (window : Window) (deed : Deed) (hregular : deed.Regular)
    (hsave : deed ≠ .command .save) : window.host.SameDisk (window.after deed).host :=
  (after_leaves window deed hsave (by rintro rfl; exact hregular)).1

/-- Each tab has a file of its own after every deed of a run. -/
theorem step_onePerFile (h : window.OnePerFile) (deed : Deed) (hregular : deed.Regular)
    (hnames : ∀ path, window.Names deed path → Path.Verbatim path) :
    (window.after deed).OnePerFile := by
  rcases deed.shows_or with hshows | ⟨change, rfl⟩ | rfl | ⟨index, rfl⟩ | rfl | rfl
  · exact (after_browses window deed hshows).onePerFile hnames h
  · have hdisk := regular_disk window _ hregular (by simp only [ne_eq, reduceCtorEq,
      not_false_eq_true])
    rcases hregular with ⟨stroke, rfl⟩
    exact h.of_paths hdisk (edit_paths window stroke)
  · exact absurd hregular not_false
  · have hdisk := regular_disk window _ hregular (by simp only [ne_eq, reduceCtorEq,
      not_false_eq_true])
    refine h.refill hdisk.refills ?_
    rcases closeTab_paths window index with hsame | ⟨k, -, -, herased⟩
    · exact hsame ▸ List.Sublist.refl _
    · exact herased ▸ List.eraseIdx_sublist _ _
  · rcases save_refills h with ⟨hrefills, hpaths⟩
    exact h.refill hrefills (hpaths ▸ List.Sublist.refl _)
  · exact absurd hregular not_false

/-- Each tab has a file of its own after every run. -/
theorem run_onePerFile (h : window.OnePerFile) (deeds : List Deed)
    (hregular : ∀ deed ∈ deeds, deed.Regular) (hnames : window.NamesVerbatim deeds) :
    (window.run deeds).OnePerFile := by
  induction deeds generalizing window with
  | nil => exact h
  | cons deed deeds ih =>
      exact ih (step_onePerFile h deed (hregular deed List.mem_cons_self) hnames.1)
        (fun later hlater => hregular later (List.mem_cons_of_mem _ hlater)) hnames.2

/-- Showing files adds what was read from them. -/
theorem shows_reads (h : window.OnePerFile) (deed : Deed) (hshows : deed.Shows)
    (hnames : ∀ path, window.Names deed path → Path.Verbatim path) :
    Tabs.Stays (window.ReadBy deed) window.tabs (window.after deed).tabs := by
  refine (after_browses window deed hshows).stays fun host path editor known hdisk hpath hload => ?_
  -- The deed may open several files, and it finds each of them on the disk it began with.
  rcases Editor.load_face _ editor host path known (h.sound.refill hdisk.refills)
    (hnames path hpath) hload with ⟨place, bytes, executable, hfind, -, -, hface⟩
  rw [hdisk.files, hdisk.workDir] at hfind
  exact ⟨path, place, bytes, executable, hpath, hfind,
    (Host.hasFile_of_find h.sound path place bytes executable hfind).2, hface⟩

/-- What a deed that closes no tab does to the row. The tabs keep their paths, and what is
    added was read from files by paths that the deed names. -/
theorem after_reads (h : window.OnePerFile) (deed : Deed) (hregular : deed.Regular)
    (hnames : ∀ path, window.Names deed path → Path.Verbatim path)
    (hclose : ∀ index, deed ≠ .closeTab index) :
    ∃ kept more, (window.after deed).tabs.faces = kept ++ more
      ∧ kept.map (·.path) = window.tabs.paths ∧ ∀ face ∈ more, window.ReadBy deed face := by
  have hkeeps : (window.after deed).tabs.paths = window.tabs.paths →
      ∃ kept more, (window.after deed).tabs.faces = kept ++ more
        ∧ kept.map (·.path) = window.tabs.paths ∧ ∀ face ∈ more, window.ReadBy deed face :=
    fun hpaths => ⟨_, [], (List.append_nil _).symm, (Tabs.paths_eq _).symm.trans hpaths,
      fun _ hmem => absurd hmem List.not_mem_nil⟩
  rcases deed.shows_or with hshows | ⟨change, rfl⟩ | rfl | ⟨index, rfl⟩ | rfl | rfl
  · rcases shows_reads h deed hshows hnames with ⟨more, hmore, hread⟩
    exact ⟨window.tabs.faces, more, hmore, (Tabs.paths_eq _).symm, hread⟩
  · rcases hregular with ⟨stroke, rfl⟩
    exact hkeeps (edit_paths window stroke)
  · exact absurd hregular not_false
  · exact absurd rfl (hclose index)
  · exact hkeeps (save_refills h).2
  · exact absurd hregular not_false

-- A path that a deed brings in is that of a file that it read.
theorem after_read (h : window.OnePerFile) (deed : Deed) (hregular : deed.Regular)
    (hnames : ∀ path, window.Names deed path → Path.Verbatim path) (path : Option Text)
    (hpath : path ∈ (window.after deed).tabs.paths) :
    path ∈ window.tabs.paths ∨ ∃ face, window.ReadBy deed face ∧ face.path = path := by
  by_cases hclose : ∃ index, deed = .closeTab index
  · rcases hclose with ⟨index, rfl⟩
    rcases closeTab_paths window index with hsame | ⟨k, -, -, herased⟩
    · exact Or.inl (hsame ▸ hpath)
    · exact Or.inl (List.mem_of_mem_eraseIdx (herased ▸ hpath))
  rcases after_reads h deed hregular hnames (fun index heq => hclose ⟨index, heq⟩) with
    ⟨kept, more, hfaces, hkept, hmore⟩
  rw [Tabs.paths_eq, hfaces, List.map_append, hkept] at hpath
  rcases List.mem_append.mp hpath with hold | hnew
  · exact Or.inl hold
  · rcases List.mem_map.mp hnew with ⟨face, hface, heq⟩
    exact Or.inr ⟨face, hmore face hface, heq⟩

/-- What the tabs know after a run was known before, or a deed along the run read it. -/
theorem run_read (h : window.OnePerFile) (deeds : List Deed)
    (hregular : ∀ deed ∈ deeds, deed.Regular) (hnames : window.NamesVerbatim deeds)
    (path : Option Text) (hpath : path ∈ (window.run deeds).tabs.paths) :
    path ∈ window.tabs.paths ∨ window.ReadAlong deeds path := by
  induction deeds generalizing window with
  | nil => exact Or.inl hpath
  | cons deed deeds ih =>
      have hdeed := hregular deed List.mem_cons_self
      -- What is known in the end was known after the first deed, or was read later.
      rcases ih (step_onePerFile h deed hdeed hnames.1)
        (fun later hlater => hregular later (List.mem_cons_of_mem _ hlater)) hnames.2 hpath with
        hafter | hread
      · exact (after_read h deed hdeed hnames.1 path hafter).imp_right Or.inl
      · exact Or.inr (Or.inr hread)

/-! ## Files that are open -/

theorem indexOf?_of_paths (tabs : Tabs) (path : Text) (k : Nat) (hdistinct : tabs.paths.Nodup)
    (h : tabs.paths[k]? = some (some path)) : tabs.indexOf? path = some k := by
  cases hindex : tabs.indexOf? path with
  | none => exact absurd (List.mem_of_getElem? h) (not_mem_paths tabs path hindex)
  | some index =>
      rcases List.findIdx?_eq_some_iff_getElem.mp hindex with ⟨hlt, hfound, -⟩
      have hpath : tabs.paths[index]? = some (some path) := by
        rw [Tabs.paths, List.getElem?_map, List.getElem?_eq_getElem hlt, Option.map_some,
          beq_iff_eq.mp hfound]
      -- Both numbers have the same path, and no path is there twice.
      rcases List.getElem?_eq_some_iff.mp hpath with ⟨hbound, -⟩
      rw [(List.getElem?_inj hbound hdistinct).mp (hpath.trans h.symm)]

/-- A file that is open is shown in its tab, by whatever path it is opened. -/
theorem openFile_open (h : window.OnePerFile) (path : Text) (place : Place) (k : Nat)
    (hwalk : window.host.files.walk window.host.workDir .followed path = .ok (.present place))
    (hk : window.tabs.paths[k]? = some (some (Path.ofPlace place))) :
    (window.openFile path).result = .ok (some k)
      ∧ (window.openFile path).state.tabs = ⟨window.tabs.all, some k⟩ := by
  have hreal := (Host.realPath_of_walk h.sound path place hwalk).1
  have hindex := indexOf?_of_paths window.tabs _ k h.distinct hk
  have hselect : window.tabs.select k = ⟨window.tabs.all, some k⟩ :=
    (Tabs.mk.injEq _ _ _ _).mpr ⟨Tabs.select_all _ _,
      Tabs.select_current _ _ (Tabs.indexOf?_lt _ _ _ hindex)⟩
  unfold openFile
  simp only [hreal, hindex, Outcome.pure, hselect, and_self]

/-- A place in a file that is open is shown in its tab, and only the cursor there is moved. -/
theorem goTo_open (h : window.OnePerFile) (path : Text) (line column : Int) (place : Place)
    (k : Nat)
    (hwalk : window.host.files.walk window.host.workDir .followed path = .ok (.present place))
    (hk : window.tabs.paths[k]? = some (some (Path.ofPlace place))) :
    (window.goTo path line column).state.tabs.faces = window.tabs.faces
      ∧ (window.goTo path line column).state.tabs.current = some k := by
  rcases openFile_open h path place k hwalk hk with ⟨hresult, htabs⟩
  have hlt : k < window.tabs.all.length := by
    rcases List.getElem?_eq_some_iff.mp hk with ⟨hlt, -⟩
    rwa [Tabs.paths, List.length_map] at hlt
  have hget : (window.openFile path).state.tabs.all[k]? = some window.tabs.all[k] := by
    rw [htabs]
    exact List.getElem?_eq_getElem hlt
  -- The editor whose cursor is moved is the current one, so its face stays.
  have heditor : (window.openFile path).state.tabs.editor? = some window.tabs.all[k].editor := by
    rw [htabs, Tabs.editor?]
    simp only [Option.bind_some, List.getElem?_eq_getElem hlt, Option.map_some]
  unfold goTo Outcome.andThen
  simp only [hresult, Option.bind_some, hget, Outcome.tell]
  refine ⟨?_, ?_⟩
  · rw [Tabs.faces_setEditor_self _ _ _ heditor (Editor.goTo_face _ line column), htabs]
    rfl
  · rw [Tabs.setEditor_current, htabs]

/-- An open that fails leaves the tabs and the current one, and so does one on the way to a
    place. -/
theorem openFile_failed (window : Window) (path : Text)
    (h : ∀ index, (window.openFile path).result ≠ .ok (some index)) :
    (window.openFile path).state.tabs = window.tabs
      ∧ ∀ line column, (window.goTo path line column).state.tabs = window.tabs := by
  have htabs : (window.openFile path).state.tabs = window.tabs := by
    rcases openFile_cases window path with ⟨-, hquiet⟩ | ⟨real, index, -, -, heq⟩
      | ⟨real, editor, known, settings, -, -, -, heq⟩
    · exact hquiet.tabs
    · exact absurd (by rw [heq]; rfl) (h index)
    · exact absurd (by rw [heq]; rfl) (h window.tabs.all.length)
  refine ⟨htabs, fun line column => ?_⟩
  unfold goTo Outcome.andThen
  split
  · exact htabs
  · next index hindex =>
      cases index with
      | none => exact htabs
      | some index => exact absurd hindex (h index)

/-- The tabs of a window that was made, after any run of deeds that open files by paths that
    are taken as they are written. No two tabs know the same file, and what each of them knows
    is the path of a file that is there and was read in the run. A deed takes no tab away but
    by closing it, makes none know another file, and adds those that it reads, each under the
    real path of what was read. A file that is open is shown in its tab by whatever path it is
    asked for, with the text it has there, and an open that fails leaves the tabs and the
    current one. -/
theorem one_tab_per_file (host : Host) (user : User) (settings : Settings) (deeds : List Deed)
    (hsound : host.Sound) (htidy : host.Tidy) (hregular : ∀ deed ∈ deeds, deed.Regular)
    (hnames : (fresh host user settings).state.NamesVerbatim deeds) :
    let window := (fresh host user settings).state.run deeds
    window.tabs.paths.Nodup
      ∧ (∀ path ∈ window.tabs.paths,
        (∃ place, window.host.HasFile place ∧ path = some (Path.ofPlace place))
          ∧ (fresh host user settings).state.ReadAlong deeds path)
      ∧ (∀ deed : Deed, deed.Regular →
        (∀ path, window.Names deed path → Path.Verbatim path) →
        (∀ index, deed ≠ .closeTab index) →
          ∃ kept more, (window.after deed).tabs.faces = kept ++ more
            ∧ kept.map (·.path) = window.tabs.paths ∧ ∀ face ∈ more, window.ReadBy deed face)
      ∧ (∀ index, (window.after (.closeTab index)).tabs.paths = window.tabs.paths
        ∨ ∃ k : Nat, index = k ∧ k < window.tabs.all.length
          ∧ (window.after (.closeTab index)).tabs.paths = window.tabs.paths.eraseIdx k)
      ∧ (∀ (path : Text) (place : Place) (k : Nat),
        window.host.files.walk window.host.workDir .followed path = .ok (.present place) →
        window.tabs.paths[k]? = some (some (Path.ofPlace place)) →
          (window.openFile path).result = .ok (some k)
            ∧ (window.openFile path).state.tabs = ⟨window.tabs.all, some k⟩
            ∧ ∀ line column, (window.goTo path line column).state.tabs.faces = window.tabs.faces
              ∧ (window.goTo path line column).state.tabs.current = some k)
      ∧ ∀ path, (∀ index, (window.openFile path).result ≠ .ok (some index)) →
        (window.openFile path).state.tabs = window.tabs
          ∧ ∀ line column, (window.goTo path line column).state.tabs = window.tabs := by
  intro window
  rcases fresh_state host user settings with ⟨hhost, -, htabs⟩
  have hpaths : (fresh host user settings).state.tabs.paths = [] := by
    rw [htabs]
    rfl
  have hfirst : (fresh host user settings).state.OnePerFile := by
    refine ⟨by rwa [hhost], by rwa [hhost], ?_, by rw [hpaths]; exact List.nodup_nil⟩
    rw [hpaths]
    exact fun path hpath => absurd hpath List.not_mem_nil
  have hone : window.OnePerFile := run_onePerFile hfirst deeds hregular hnames
  refine ⟨hone.distinct, fun path hpath => ⟨hone.known path hpath, ?_⟩,
    fun deed hdeed hplain hclose => after_reads hone deed hdeed hplain hclose,
    fun index => closeTab_paths window index, fun path place k hwalk hk => ?_,
    fun path hfailed => openFile_failed window path hfailed⟩
  · rcases run_read hfirst deeds hregular hnames path hpath with hold | hread
    · rw [hpaths] at hold
      exact absurd hold List.not_mem_nil
    · exact hread
  rcases openFile_open hone path place k hwalk hk with ⟨hresult, hrow⟩
  exact ⟨hresult, hrow, fun line column => goTo_open hone path line column place k hwalk hk⟩

/-- The files of `Editor.hostWithWork` have no blanks around their paths. -/
theorem hostWithWork_tidy : Editor.hostWithWork.Tidy := by
  have hfiles : Editor.hostWithWork.files.root.FilesAt fun place =>
      Text.trim (Path.ofPlace place) = Path.ofPlace place := by
    refine Entry.filesAt_directory _ _ fun entry hentry => ?_
    rcases List.mem_cons.mp hentry with rfl | hentry
    · exact Entry.filesAt_link _ _
    rw [List.mem_singleton.mp hentry]
    refine Entry.filesAt_directory _ _ fun entry hentry => ?_
    rcases List.mem_cons.mp hentry with rfl | hentry
    · exact Entry.filesAt_file _ _ _ (by decide)
    · rw [List.mem_singleton.mp hentry]
      exact Entry.filesAt_file _ _ _ (by decide)
  rintro place ⟨content, executable, hkind⟩
  exact hfiles place content executable hkind

/-- A window on a disk with two files, and a second name for their directory. -/
def linkedDesk : Window :=
  (fresh Editor.hostWithWork ⟨[], []⟩ noSettingsFile).state

/-- Both files are opened, and the first one is changed. -/
def linkedDeeds : List Deed :=
  [.openFile (.str "a.go"), .edit (·.stroke (.insert "x")), .openFile (.str "b.go")]

/-- A file that is open with changes is asked for again, through a link and a pair of dots.
    It is shown in its tab, as it is there. -/
theorem linked_file_open :
    (linkedDesk.run linkedDeeds).tabs.paths = [some ("/work/a.go" : Text), some "/work/b.go"]
      ∧ (linkedDesk.run linkedDeeds).tabs.all.map (·.editor.sourceText)
        = [("xa\n" : Text), "b\n"]
      ∧ (linkedDesk.run linkedDeeds).tabs.current = some 1
      ∧ ((linkedDesk.run linkedDeeds).openFile "../l/./a.go").state.tabs
        = ⟨(linkedDesk.run linkedDeeds).tabs.all, some 0⟩ := by
  have hpaths : (linkedDesk.run linkedDeeds).tabs.paths
      = [some ("/work/a.go" : Text), some "/work/b.go"] := by
    decide +kernel
  have hregular : ∀ deed ∈ linkedDeeds, deed.Regular := by
    simp only [linkedDeeds, List.forall_mem_cons, Deed.Regular, Deed.ByHand, List.not_mem_nil,
      false_implies, implies_true, and_true, true_and]
    exact ⟨.insert "x", rfl⟩
  have hfirst : Path.Verbatim "a.go" := ⟨by decide, FilePath.not_namesHome _ (by decide)⟩
  have hsecond : Path.Verbatim "b.go" := ⟨by decide, FilePath.not_namesHome _ (by decide)⟩
  have hnames : linkedDesk.NamesVerbatim linkedDeeds := by
    refine ⟨fun path hpath => ?_, fun path hpath => ?_, fun path hpath => ?_, trivial⟩
    · exact Except.ok.inj hpath ▸ hfirst
    · exact absurd hpath not_false
    · exact Except.ok.inj hpath ▸ hsecond
  have hwalk : (linkedDesk.run linkedDeeds).host.files.walk
      (linkedDesk.run linkedDeeds).host.workDir .followed "../l/./a.go"
        = .ok (.present ["work", "a.go"]) :=
    Editor.eq_ok_of_toOption _ _ (by decide +kernel)
  have hk : (linkedDesk.run linkedDeeds).tabs.paths[0]?
      = some (some (Path.ofPlace ["work", "a.go"])) := by
    rw [hpaths]
    rfl
  have hone := one_tab_per_file Editor.hostWithWork ⟨[], []⟩ noSettingsFile linkedDeeds
    Editor.hostWithWork_sound hostWithWork_tidy hregular hnames
  exact ⟨hpaths, by decide +kernel, by decide +kernel, (hone.2.2.2.2.1 _ _ 0 hwalk hk).2.1⟩

/-- A file in a directory with the name of a home directory, opened twice by a path with a dot
    before that name. Each time it gets a tab, and neither of them knows it by its real path. -/
theorem hidden_home_misleads :
    let host : Host := { Host.ofFiles ⟨[("work", .directory [("~", .directory [
      ("a.go", .file (Utf8.encode "a\n") false)])])]⟩ with
      workDir := ["work"], environment := [("HOME", "/home")] }
    let path : Text := "./~/a.go"
    let window := (fresh host ⟨[], []⟩ noSettingsFile).state.run
      [.openFile (.str path), .openFile (.str path)]
    Text.trim path = path ∧ path.head? ≠ some '~' ∧ Char.ofNat 0 ∉ path
      ∧ host.realPath path = .ok "/work/~/a.go"
      ∧ window.tabs.paths = [some ("/home/a.go" : Text), some "/home/a.go"] :=
  ⟨by decide, by decide, by decide, Editor.eq_ok_of_toOption _ _ (by decide +kernel),
    by decide +kernel⟩

end Window

end QueryDesk
