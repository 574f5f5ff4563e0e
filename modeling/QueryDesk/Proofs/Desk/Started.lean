import QueryDesk.Proofs.Desk.OneTab
import QueryDesk.Proofs.Desk.Told
import QueryDesk.Proofs.Host.Asked
import QueryDesk.Proofs.Repeats

/-!
# A desk that is started with files

Every file that an argument names is asked for before the first one is opened. So the start
fails as a whole when one argument cannot be asked about, and then no file is open. When all
can be asked about, the files are opened one after the other by their real paths, and a file
that was mentioned before is shown in the tab it has. What is open in the end is told from the
places that were mentioned: each of them once, in the order of the first mention, and the last
one is current.

A file is opened by its real path, and this path is known under a name without the blanks
around it. So the names of the files must not end in blanks. A file whose real path is too
long to be read is told about and gets no tab.

## Main definitions

* `Host.readable`, `Host.faceAt`: A file that can be read, and what is shown of it.
* `Host.mentioned`: The files that some names mention.
* `Window.HasOpened`: The tabs after files were opened.

## Theorems

* `Settings.load_absent`: Settings without a file.
* `Editor.load_hasFile`: Loading a file by the path of its place.
* `openFile_hasOpened`, `openFiles_hasOpened`: What opening one file, and several, leaves open.
* `start_opens`: What a start leaves open.
* `start_unknown_home`: A start that fails.
-/

namespace QueryDesk

namespace Settings

/-- Settings without a file are the defaults, and they are fit for use as they are. -/
theorem load_absent (settings : SettingsStore) (host : Host)
    (hdefaults : settings.defaults = Settings.defaults)
    (hnone : host.test (fun _ => true) settings.path.text = .ok false) :
    (load settings host).2 = .ok () ∧ config (load settings host).1 = queryDefaults := by
  have hread : ∃ dirty, SettingsStore.load settings host
      = ({ settings with
          data := SettingsStore.withDefaults defaults [], dirty, loadError := none }, .ok ()) := by
    have hfits : SettingsStore.fits settings.defaults [] = true := by
      rw [hdefaults]
      decide
    rw [← hdefaults]
    rcases Bool.eq_false_or_eq_true settings.persistent with hpersistent | hpersistent
    · rw [(SettingsStore.Finds.missing hpersistent hnone).load_eq]
      exact ⟨true, SettingsStore.refill_fits { settings with loadError := none } [] true hfits⟩
    · rw [(SettingsStore.Finds.transient hpersistent).load_eq]
      exact ⟨false, SettingsStore.refill_fits { settings with loadError := none } [] false hfits⟩
  rcases hread with ⟨dirty, hread⟩
  unfold load
  rw [hread]
  exact ⟨rfl, rfl⟩

end Settings

/-! ## Mentions -/

namespace Host

variable {host : Host} {place : Place}

/-- The file at the place can be read by its path. -/
def readable (host : Host) (place : Place) : Bool :=
  (host.readBytes (Path.ofPlace place)).isOk

/-- The files that can be read among those that some names lead to, as often as they are
    named. -/
def mentioned (host : Host) (names : List Text) : List Place :=
  (names.filterMap host.fileNamed?).filter host.readable

/-- The face of an editor that the file at the place was loaded into. -/
def faceAt (host : Host) (place : Place) : Editor.Face :=
  ⟨some (Path.ofPlace place),
    Editor.shown ((host.readBytes (Path.ofPlace place)).toOption.getD []), false⟩

/-- The path of the place of a file is its real path. -/
theorem realPath_hasFile (hsound : host.Sound) (h : host.HasFile place) :
    host.realPath (Path.ofPlace place) = .ok (Path.ofPlace place) := by
  refine realPath_of_route hsound.targets _ 0 place (Nat.zero_le _) h.direct.no_nul ?_
  unfold FileTree.startOf
  rw [if_pos (Path.isAbsolute_ofPlace place)]
  exact (FileTree.route_splitOn_write 1 place 0 place Nat.one_pos
    fun name hname => (h.direct.names name hname).no_slash).mpr h.direct.route

/-- A file at whose place there is one can be read, or its path is refused. -/
theorem readBytes_hasFile (h : host.HasFile place) :
    (∃ bytes, host.readBytes (Path.ofPlace place) = .ok bytes)
      ∨ ∃ failure, host.readBytes (Path.ofPlace place) = .error failure
        ∧ failure.isRefusedFile = true := by
  unfold readBytes FileTree.readBytes
  cases hfind : host.files.find host.workDir (Path.ofPlace place) with
  | error fault =>
      rcases FileTree.find_fault host.workDir _ fault hfind with rfl | ⟨cause, -, rfl⟩
      · exact absurd hfind (FileTree.find_direct host.workDir place h.direct).1
      · exact Or.inr ⟨_, rfl, rfl⟩
  | ok found =>
      rcases found with ⟨other, entry⟩
      cases entry with
      | file content executable => exact Or.inl ⟨content, rfl⟩
      | link target => exact Or.inr ⟨_, rfl, rfl⟩
      | directory entries => exact Or.inr ⟨_, rfl, rfl⟩

theorem ofPlace_injective {other : Place} (h : host.HasFile place) (hother : host.HasFile other)
    (heq : Path.ofPlace place = Path.ofPlace other) : place = other :=
  (Path.write_injective 1 1 place other (Or.inl rfl) (Or.inl rfl) h.direct.names
    hother.direct.names heq).2

end Host

/-- Loading a file by the path of its place. It is known under a name then, or it cannot be
    read. -/
theorem Editor.load_hasFile (editor : Editor) {host : Host} {place : Place}
    (h : host.HasFile place) :
    (host.readable place = true ∧ ∃ loaded known,
        editor.load host (Path.ofPlace place) = (loaded, .ok known))
      ∨ host.readable place = false ∧ ∃ failure,
        editor.load host (Path.ofPlace place) = (editor, .error failure)
          ∧ failure.isRefusedFile = true := by
  unfold load Host.readSource Host.readable
  rcases Host.readBytes_hasFile h with ⟨bytes, hbytes⟩ | ⟨failure, hfailed, hrefused⟩
  · rcases Host.canonicalPath_of_isAbsolute host _ (Path.isAbsolute_ofPlace place) with
      ⟨known, hknown⟩
    refine Or.inl ⟨by rw [hbytes]; rfl, ?_⟩
    simp only [hbytes, rename, hknown,
      if_neg fun hnil => Path.ofPlace_ne_nil place (List.isEmpty_iff.mp hnil)]
    exact ⟨_, known, rfl⟩
  · exact Or.inr ⟨by rw [hfailed]; rfl, failure, by simp only [hfailed], hrefused⟩

namespace Window

variable {window : Window} {host : Host} {place : Place} {opened : List Place}

/-! ## Opening files that were found -/

/-- Opening a file by the path of its place does not fail, and leaves the host. -/
theorem openFile_ok (hsound : window.host.Sound) (hplace : window.host.HasFile place) :
    (∃ index, (window.openFile (Path.ofPlace place)).result = .ok index)
      ∧ (window.openFile (Path.ofPlace place)).state.host = window.host := by
  refine ⟨?_, ?_⟩
  · unfold openFile
    simp only [Host.realPath_hasFile hsound hplace]
    cases window.tabs.indexOf? (Path.ofPlace place) with
    | some index => exact ⟨some index, rfl⟩
    | none =>
        rcases Editor.empty.load_hasFile hplace with
          ⟨-, loaded, known, hload⟩ | ⟨-, failure, hload, hrefused⟩
        · rcases set_lastOpenDir window.settings (.str (Path.dirName known)) with
            ⟨settings, changed, hset⟩
          simp only [hload, hset]
          exact ⟨_, rfl⟩
        · simp only [hload, hrefused, if_true]
          exact ⟨none, rfl⟩
  · rcases openFile_cases window (Path.ofPlace place) with ⟨-, hquiet⟩ | ⟨_, _, -, -, heq⟩
      | ⟨_, _, _, _, -, -, -, heq⟩
    · exact hquiet.host
    · rw [heq]
      rfl
    · rw [heq]
      rfl

theorem openFiles_cons (h : ∃ index, (window.openFile (Path.ofPlace place)).result = .ok index)
    (paths : List Text) :
    (window.openFiles (Path.ofPlace place :: paths)).result
        = ((window.openFile (Path.ofPlace place)).state.openFiles paths).result
      ∧ (window.openFiles (Path.ofPlace place :: paths)).state
        = ((window.openFile (Path.ofPlace place)).state.openFiles paths).state := by
  rcases h with ⟨index, hresult⟩
  rw [openFiles, Outcome.andThen, hresult]
  exact ⟨rfl, rfl⟩

/-- Opening files that were found does not fail. -/
theorem openFiles_ok (hsound : window.host.Sound) (places : List Place)
    (hplaces : ∀ place ∈ places, window.host.HasFile place) :
    (window.openFiles (places.map Path.ofPlace)).result = .ok () := by
  induction places generalizing window with
  | nil => rfl
  | cons place places ih =>
      rcases openFile_ok hsound (hplaces place List.mem_cons_self) with ⟨hresult, hhost⟩
      rw [List.map_cons, (openFiles_cons hresult _).1]
      refine ih (by rwa [hhost]) fun other hother => ?_
      rw [hhost]
      exact hplaces other (List.mem_cons_of_mem _ hother)

/-- The tabs of the window are those of the places that were opened, each of them once in the
    order of the first opening, and the last one that was opened is current. -/
structure HasOpened (window : Window) (host : Host) (opened : List Place) : Prop where
  sameHost : window.host = host
  faces : window.tabs.faces = opened.eraseDups.map host.faceAt
  current : window.tabs.current = opened.getLast?.map opened.eraseDups.idxOf
  known : ∀ place ∈ opened, host.HasFile place ∧ host.readable place = true

theorem HasOpened.paths (h : window.HasOpened host opened) :
    window.tabs.paths = opened.eraseDups.map fun place => some (Path.ofPlace place) := by
  rw [Tabs.paths_eq, h.faces, List.map_map]
  rfl

theorem HasOpened.distinct (h : window.HasOpened host opened) : window.tabs.paths.Nodup := by
  rw [h.paths]
  refine List.Nodup.map_on (fun first hfirst second hsecond heq => ?_) (eraseDups_nodup opened)
  exact Host.ofPlace_injective (h.known first (List.mem_eraseDups.mp hfirst)).1
    (h.known second (List.mem_eraseDups.mp hsecond)).1 (Option.some.inj heq)

/-- A file that was opened is found at its number, and no other one is found. -/
theorem HasOpened.indexOf? (h : window.HasOpened host opened) (hplace : host.HasFile place) :
    window.tabs.indexOf? (Path.ofPlace place)
      = if place ∈ opened then some (opened.eraseDups.idxOf place) else none := by
  split
  · next hmem =>
      refine indexOf?_of_paths _ _ _ h.distinct ?_
      rw [h.paths, List.getElem?_map, List.getElem?_idxOf (List.mem_eraseDups.mpr hmem)]
      rfl
  · next hmem =>
      refine List.findIdx?_eq_none_iff.mpr fun tab htab => ?_
      rw [beq_eq_false_iff_ne]
      intro hpath
      have hin : some (Path.ofPlace place) ∈ window.tabs.paths :=
        hpath ▸ List.mem_map_of_mem htab
      rw [h.paths] at hin
      rcases List.mem_map.mp hin with ⟨other, hother, heq⟩
      rw [List.mem_eraseDups] at hother
      exact hmem (Host.ofPlace_injective (h.known other hother).1 hplace
        (Option.some.inj heq) ▸ hother)

/-- Opening a file that can be read adds it to those that were opened. -/
theorem openFile_readable (hsound : host.Sound) (h : window.HasOpened host opened)
    (hplace : host.HasFile place) (hreadable : host.readable place = true)
    (htrim : Text.trim (Path.ofPlace place) = Path.ofPlace place) :
    (window.openFile (Path.ofPlace place)).state.HasOpened host (opened ++ [place]) := by
  have hknown : ∀ other ∈ opened ++ [place], host.HasFile other ∧ host.readable other = true := by
    intro other hother
    rcases List.mem_append.mp hother with hold | hnew
    · exact h.known other hold
    · exact List.mem_singleton.mp hnew ▸ ⟨hplace, hreadable⟩
  have hindex := h.indexOf? hplace
  unfold openFile
  simp only [h.sameHost, Host.realPath_hasFile hsound hplace, hindex]
  by_cases hmem : place ∈ opened
  · -- The file is open, and nothing but the current tab changes.
    rw [if_pos hmem] at hindex ⊢
    refine ⟨h.sameHost, ?_, ?_, hknown⟩
    · rw [eraseDups_concat, if_pos hmem, ← h.faces]
      exact Tabs.faces_select _ _
    · rw [List.getLast?_concat, eraseDups_concat, if_pos hmem]
      exact Tabs.select_current _ _ (Tabs.indexOf?_lt _ _ _ hindex)
  · -- The file is new, so its tab comes after all others, as its place does.
    rw [if_neg hmem]
    rcases Host.readBytes_hasFile hplace with ⟨bytes, hbytes⟩ | ⟨failure, hfailed, -⟩
    · have hload := Editor.load_canonical .empty host _ bytes
        (Host.canonicalPath_ofPlace hsound.targets place hplace.direct htrim) hbytes
      rcases set_lastOpenDir window.settings (.str (Path.dirName (Path.ofPlace place))) with
        ⟨settings, changed, hset⟩
      simp only [hload, hset]
      refine ⟨h.sameHost, ?_, ?_, hknown⟩
      · rw [eraseDups_concat, if_neg hmem, List.map_append, ← h.faces]
        refine (Tabs.faces_addCurrent _ _).trans (congrArg _ ?_)
        rw [List.map_singleton, Host.faceAt, hbytes]
        rfl
      · have hlength : window.tabs.all.length = opened.eraseDups.length := by
          rw [← Tabs.faces_length, h.faces, List.length_map]
        rw [List.getLast?_concat, eraseDups_concat, if_neg hmem, Option.map_some,
          List.idxOf_append_of_notMem fun hin => hmem (List.mem_eraseDups.mp hin),
          List.idxOf_cons_self, Nat.add_zero, ← hlength]
        exact Tabs.addCurrent_current _ _
    · rw [Host.readable, hfailed] at hreadable
      exact absurd hreadable Bool.false_ne_true

/-- Opening a file that cannot be read leaves what is open. -/
theorem openFile_unreadable (hsound : host.Sound) (h : window.HasOpened host opened)
    (hplace : host.HasFile place) (hno : host.readable place = false) :
    (window.openFile (Path.ofPlace place)).state.HasOpened host opened := by
  -- What was opened can be read, so this file is none of those.
  have hmem : place ∉ opened := fun hin =>
    absurd (hno.symm.trans (h.known place hin).2) Bool.false_ne_true
  have hindex := h.indexOf? hplace
  rw [if_neg hmem] at hindex
  rcases Editor.empty.load_hasFile hplace with ⟨hyes, -⟩ | ⟨-, failure, hload, hrefused⟩
  · exact absurd (hno.symm.trans hyes) Bool.false_ne_true
  unfold openFile
  simp only [h.sameHost, Host.realPath_hasFile hsound hplace, hindex, hload, hrefused, if_true]
  have hquiet := see_quiet window
    (.warning "Open File" ("Could not open file:\n" ++ failure.message))
  exact ⟨hquiet.host.trans h.sameHost, hquiet.tabs ▸ h.faces, hquiet.tabs ▸ h.current, h.known⟩

/-- What opening one file that was found leaves open. -/
theorem openFile_hasOpened (hsound : host.Sound) (h : window.HasOpened host opened)
    (hplace : host.HasFile place)
    (htrim : host.readable place = true → Text.trim (Path.ofPlace place) = Path.ofPlace place) :
    (window.openFile (Path.ofPlace place)).state.HasOpened host
      (opened ++ [place].filter host.readable) := by
  cases hreadable : host.readable place with
  | true =>
      rw [List.filter_cons_of_pos hreadable]
      exact openFile_readable hsound h hplace hreadable (htrim hreadable)
  | false =>
      rw [List.filter_cons_of_neg (by rw [hreadable]; exact Bool.false_ne_true), List.filter_nil,
        List.append_nil]
      exact openFile_unreadable hsound h hplace hreadable

/-- What opening files that were found leaves open. -/
theorem openFiles_hasOpened (hsound : host.Sound) (places : List Place)
    (h : window.HasOpened host opened) (hplaces : ∀ place ∈ places, host.HasFile place)
    (htrim : ∀ place ∈ places.filter host.readable,
      Text.trim (Path.ofPlace place) = Path.ofPlace place) :
    (window.openFiles (places.map Path.ofPlace)).state.HasOpened host
      (opened ++ places.filter host.readable) := by
  induction places generalizing window opened with
  | nil => rwa [List.filter_nil, List.append_nil]
  | cons place places ih =>
      have hplace := hplaces place List.mem_cons_self
      have hstep := openFile_hasOpened hsound h hplace fun hreadable =>
        htrim place (List.mem_filter.mpr ⟨List.mem_cons_self, hreadable⟩)
      have hresult := (openFile_ok (h.sameHost ▸ hsound) (h.sameHost ▸ hplace)).1
      -- What is opened later is added to what the first file left open.
      rw [List.map_cons, (openFiles_cons hresult _).2, ← List.singleton_append,
        List.filter_append, ← List.append_assoc]
      refine ih hstep (fun other hother => hplaces other (List.mem_cons_of_mem _ hother))
        fun other hother => htrim other ?_
      rw [← List.singleton_append, List.filter_append]
      exact List.mem_append_right _ hother

/-! ## The start -/

/-- A desk whose settings have no file yet can always be made. -/
theorem fresh_ok (host : Host) (user : User) (settings : SettingsStore)
    (hdefaults : settings.defaults = Settings.defaults)
    (hnone : host.test (fun _ => true) settings.path.text = .ok false) :
    (fresh host user settings).result = .ok () := by
  rcases Settings.load_absent settings host hdefaults hnone with ⟨hload, hconfig⟩
  unfold fresh
  revert hload hconfig
  rcases Settings.load settings host with ⟨loaded, result⟩
  rintro rfl hconfig
  have hthrough : ∀ window : Window,
      (window.through (window.bench.configure (Settings.config loaded))).result = .ok () := by
    intro window
    unfold through
    rw [Workbench.configure_notices, show Settings.config loaded = _ from hconfig]
    rfl
  exact hthrough _

/-- A start asks for all files before it opens the first one. -/
theorem start_cases (host : Host) (user : User) (settings : SettingsStore) (arguments : Arguments)
    (hfresh : (fresh host user settings).result = .ok ()) :
    (∃ failure, host.existingFiles arguments.files = .error failure
        ∧ (start host user settings arguments).result = .error failure
        ∧ (start host user settings arguments).state = (fresh host user settings).state)
      ∨ ∃ paths, host.existingFiles arguments.files = .ok paths
        ∧ (start host user settings arguments).result
          = ((fresh host user settings).state.openFiles paths).result
        ∧ (start host user settings arguments).state
          = ((fresh host user settings).state.openFiles paths).state := by
  unfold start Outcome.andThen
  simp only [hfresh, (fresh_state host user settings).1]
  cases host.existingFiles arguments.files with
  | error failure => exact Or.inl ⟨failure, rfl, rfl, rfl⟩
  | ok paths => exact Or.inr ⟨paths, rfl, rfl, rfl⟩

/-- What a start leaves open. It succeeds just when all names can be asked about, and if it
    fails no file is open. If it succeeds, and the files that are named can be known by their
    real paths, the tabs are those of the files that are named and can be read, each of them
    once in the order of the first mention, and the one mentioned last is current. -/
theorem start_opens (host : Host) (user : User) (settings : SettingsStore) (arguments : List Text)
    (hsound : host.Sound) (hdefaults : settings.defaults = Settings.defaults)
    (hnone : host.test (fun _ => true) settings.path.text = .ok false) :
    let names := arguments.filter (!Arguments.isOption ·)
    let mentioned := host.mentioned names
    let outcome := start host user settings (Arguments.split arguments)
    (outcome.result = .ok () ↔ ∀ name ∈ names, host.Askable name)
      ∧ (outcome.result ≠ .ok () → outcome.state.tabs = .none)
      ∧ ((∀ name ∈ names, host.Askable name) →
        (∀ place ∈ mentioned, Text.trim (Path.ofPlace place) = Path.ofPlace place) →
          outcome.state.tabs.faces = mentioned.eraseDups.map host.faceAt
            ∧ outcome.state.tabs.current = mentioned.getLast?.map mentioned.eraseDups.idxOf) := by
  intro names mentioned outcome
  rcases fresh_state host user settings with ⟨hhost, -, htabs⟩
  rcases start_cases host user settings (Arguments.split arguments)
    (fresh_ok host user settings hdefaults hnone) with
    ⟨failure, hasked, hresult, hstate⟩ | ⟨paths, hasked, hresult, hstate⟩
  · have hno : ¬ ∀ name ∈ names, host.Askable name := fun hall => absurd
      (hasked.symm.trans ((Host.existingFiles_ok_iff hsound names _).mpr ⟨hall, rfl⟩))
      (by simp only [reduceCtorEq, not_false_eq_true])
    refine ⟨iff_of_false ?_ hno, fun _ => ?_, fun hall => absurd hall hno⟩
    · rw [show outcome.result = _ from hresult]
      simp only [reduceCtorEq, not_false_eq_true]
    · rw [show outcome.state = _ from hstate, htabs]
  · rcases (Host.existingFiles_ok_iff hsound names paths).mp hasked with ⟨hall, rfl⟩
    have hplaces : ∀ place ∈ names.filterMap host.fileNamed?, host.HasFile place := by
      intro place hplace
      rcases List.mem_filterMap.mp hplace with ⟨name, -, hname⟩
      exact Host.hasFile_of_fileNamed? hsound hname
    have hok : outcome.result = .ok () :=
      hresult.trans (openFiles_ok (hhost.symm ▸ hsound) _ (hhost.symm ▸ hplaces))
    refine ⟨iff_of_true hok hall, fun hfailed => absurd hok hfailed, fun _ htrim => ?_⟩
    -- A desk that was just made has opened nothing.
    have hfirst : (fresh host user settings).state.HasOpened host [] :=
      ⟨hhost, by rw [htabs]; rfl, by rw [htabs]; rfl, fun _ hmem => absurd hmem List.not_mem_nil⟩
    have hopened := openFiles_hasOpened hsound _ hfirst hplaces htrim
    rw [← hstate, List.nil_append] at hopened
    exact ⟨hopened.faces, hopened.current⟩

/-- An option, a file named with a blank before it, a name of nothing, the same file through a
    link, and two files. Each file gets one tab, and the one named last is current. -/
theorem start_opens_linked :
    let arguments : List Text := ["-style", " a.go", "none.go", "../l/a.go", "b.go", "a.go"]
    let outcome := start Editor.hostWithWork ⟨[], []⟩ noSettingsFile (Arguments.split arguments)
    outcome.result = .ok ()
      ∧ outcome.state.tabs.paths = [some ("/work/a.go" : Text), some "/work/b.go"]
      ∧ outcome.state.tabs.current = some 0 := by
  intro arguments outcome
  rcases start_opens Editor.hostWithWork ⟨[], []⟩ noSettingsFile arguments
    Editor.hostWithWork_sound rfl (Editor.eq_ok_of_toOption _ _ (by decide +kernel)) with
    ⟨hresult, -, hopens⟩
  have hmentioned : Editor.hostWithWork.mentioned (arguments.filter (!Arguments.isOption ·))
      = ([["work", "a.go"], ["work", "a.go"], ["work", "b.go"], ["work", "a.go"]]
        : List (List Text)) := by
    decide +kernel
  have hasked : (Editor.hostWithWork.existingFiles
      (arguments.filter (!Arguments.isOption ·))).toOption
      = some (["/work/a.go", "/work/a.go", "/work/b.go", "/work/a.go"] : List Text) := by
    decide +kernel
  have hall := ((Host.existingFiles_ok_iff Editor.hostWithWork_sound _ _).mp
    (Editor.eq_ok_of_toOption _ _ hasked)).1
  rcases hopens hall (by rw [hmentioned]; decide) with ⟨hfaces, hcurrent⟩
  refine ⟨hresult.mpr hall, ?_, ?_⟩
  · rw [Tabs.paths_eq, hfaces, hmentioned, List.map_map]
    decide +kernel
  · rw [hcurrent, hmentioned]
    decide

/-- A start with the name of a file in the home directory of nobody, and with that of a file
    that is there. It fails, and no file is open. -/
theorem start_unknown_home :
    let outcome := start Editor.hostWithWork ⟨[], []⟩ noSettingsFile
      (Arguments.split ["~nouser/a.go", "a.go"])
    outcome.result.toOption = none ∧ outcome.state.tabs = .none
      ∧ Editor.hostWithWork.mentioned ["~nouser/a.go", "a.go"]
        = ([["work", "a.go"]] : List (List Text)) := by
  decide +kernel

end Window

end QueryDesk
