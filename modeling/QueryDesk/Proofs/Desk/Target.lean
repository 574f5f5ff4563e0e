import QueryDesk.Proofs.Desk.Saved
import QueryDesk.Proofs.Host.RealPath

/-!
# Where a save writes

A file is read by the path it was asked for, and written under the name the desk
knows it by. That name is worked out from the path twice, once when the file is
loaded and once when it is saved: blanks around the path are dropped, a home
directory at its start is filled in, and links are resolved. Where the name is
that of the place the file was read from, a save changes this file and nothing
else.

Links never lead elsewhere: the real path of a file that could be read is the
path of its place. What leads elsewhere is the text of the path. A file whose
path has blanks around it is known by another name, and when there is a file of
that name, the save overwrites it. The same goes for the home directory, and for
the real path, from which blanks are dropped when it is saved.

## Main definitions

* `Host.Literal`: A path whose text says where it leads and no more.

## Theorems

* `save_cases`: What a save did, whatever it gave.
* `save_saved`: The editor that a save gave.
* `save_own`: What a save did of an editor that knows its file.
* `load_ok`: What a load that gave a file did.
* `saved_where_read`: The file that is changed is the one that was read.
* `blank_name_misleads`: A file overwritten in the place of another one.
-/

namespace QueryDesk

/-- The text of the path says where it leads and no more: there are no blanks
    around it, nor around its real path, and it begins with no home directory. -/
structure Host.Literal (host : Host) (path : Text) : Prop where
  trimmed : Text.trim path = path
  noHome : ¬ (FilePath.parse path).NamesHome
  real : ∀ real, host.realPath path = .ok real → Text.trim real = real

namespace Editor

/-- What a save did. Either it wrote nothing, because the path has no canonical name
    or an empty one, or it wrote the text under that name. -/
theorem save_cases (editor saved : Editor) (host after : Host) (path : Text)
    (outcome : Except Failure SavedFile)
    (h : editor.save host path = (after, saved, outcome)) :
    after = host ∧ ((∃ failure, outcome = .error failure)
        ∨ host.canonicalPath (path.orElse editor.pathText) = .ok [] ∧ outcome = .ok ⟨[], none⟩)
      ∨ ∃ target result, host.canonicalPath (path.orElse editor.pathText) = .ok target
        ∧ target ≠ []
        ∧ host.writeSource target editor.sourceText editor.ending.text .utf8 = (after, result)
        ∧ (∀ file, outcome = .ok file → result = .ok () ∧ file.path = target)
        ∧ (editor.path = some target → result = .ok () → outcome = .ok ⟨target, none⟩) := by
  cases save_saves editor saved host after path outcome h with
  | unnamed => exact Or.inl ⟨rfl, Or.inl ⟨_, rfl⟩⟩
  | nothing hname => exact Or.inl ⟨rfl, Or.inr ⟨hname, rfl⟩⟩
  | @unwritten target _ failure hname hne hwrite =>
      refine Or.inr ⟨target, .error failure, hname, hne, hwrite, fun file hfile => ?_,
        fun _ hresult => ?_⟩
      · exact absurd hfile (by simp only [reduceCtorEq, not_false_eq_true])
      · exact absurd hresult (by simp only [reduceCtorEq, not_false_eq_true])
  | @own target _ hname hne hwrite hknown =>
      refine Or.inr ⟨target, .ok (), hname, hne, hwrite, fun file hfile => ?_, fun _ _ => rfl⟩
      rw [← Except.ok.inj hfile]
      exact ⟨rfl, rfl⟩
  | @renamed target _ _ hname hne hwrite hother =>
      refine Or.inr ⟨target, .ok (), hname, hne, hwrite, fun file hfile => ?_,
        fun hsame => absurd hsame hother⟩
      rw [← Except.ok.inj hfile]
      exact ⟨rfl, rfl⟩

/-- The editor that a save gave. It is the same when nothing was written, and otherwise
    shows the same text without changes. -/
theorem save_saved (editor saved : Editor) (host after : Host) (path : Text) (file : SavedFile)
    (h : editor.save host path = (after, saved, .ok file)) :
    file.path = [] ∧ saved = editor
      ∨ file.path ≠ [] ∧ saved.sourceText = editor.sourceText ∧ saved.buffer.modified = false
        ∧ (editor.path = some file.path → saved = editor.settle) := by
  cases save_saves editor saved host after path _ h with
  | nothing => exact Or.inl ⟨rfl, rfl⟩
  | own _ hne => exact Or.inr ⟨hne, rfl, rfl, fun _ => rfl⟩
  | renamed _ hne _ hother => exact Or.inr ⟨hne, rfl, rfl, fun hsame => absurd hsame hother⟩

/-- What a save did of an editor that knows a file that can be read. One that failed
    left the bytes, and one that gave a file wrote the text to it. -/
theorem save_own (editor saved : Editor) (host after : Host) (path : Text) (bytes : Bytes)
    (outcome : Except Failure SavedFile) (heditor : editor.path = some path)
    (hpath : host.canonicalPath path = .ok path) (hbytes : host.readBytes path = .ok bytes)
    (h : editor.save host [] = (after, saved, outcome)) :
    (∃ failure, outcome = .error failure) ∧ after.readBytes path = .ok bytes
      ∨ outcome = .ok ⟨path, none⟩
        ∧ host.writeSource path editor.sourceText editor.ending.text .utf8 = (after, .ok ()) := by
  have hne : path ≠ [] := Host.readBytes_ne_nil host path _ hbytes
  have hknown : Text.orElse [] editor.pathText = path := by
    rw [pathText, heditor]
    rfl
  have hcases := save_cases editor saved host after [] outcome h
  rw [hknown, hpath] at hcases
  rcases hcases with ⟨rfl, hfailed | ⟨hnothing, _⟩⟩
    | ⟨target, result, htarget, _, hwrite, hgave, hgives⟩
  · exact Or.inl ⟨hfailed, hbytes⟩
  · exact absurd (Except.ok.inj hnothing) hne
  rw [Except.ok.injEq] at htarget
  subst htarget
  cases result with
  | ok done => exact Or.inr ⟨hgives heditor rfl, hwrite⟩
  | error failure =>
      rcases Host.writeSource_error host after path _ _ failure hwrite with ⟨files, rfl, hgrows⟩
      refine Or.inl ⟨?_, ?_⟩
      · cases outcome with
        | error other => exact ⟨other, rfl⟩
        | ok file =>
            exact absurd (hgave file rfl).1 (by simp only [reduceCtorEq, not_false_eq_true])
      · rw [Host.readBytes_eq_ok_iff] at hbytes ⊢
        exact FileTree.readBytes_grows host.workDir path _
          (Host.normal_of_canonicalPath host path hpath hne) hgrows hbytes

/-- What a load that gave a file did: the file's bytes are shown, and the editor
    knows the file under the canonical name of the path. -/
theorem load_ok (editor loaded : Editor) (host : Host) (path announced : Text)
    (h : editor.load host path = (loaded, .ok announced)) :
    ∃ place bytes executable,
      host.files.find host.workDir path = .ok (place, .file bytes executable)
        ∧ loaded.sourceText = shown bytes ∧ host.canonicalPath path = .ok announced
        ∧ loaded.path = some announced := by
  unfold load at h
  split at h
  · exact absurd h failed_ne_ok
  next text ending hread =>
  unfold Host.readSource at hread
  split at hread
  · exact absurd hread (by simp only [reduceCtorEq, not_false_eq_true])
  next bytes hbytes =>
  have hne : ¬ path.isEmpty = true := fun hnil =>
    Host.readBytes_ne_nil host path bytes hbytes (List.isEmpty_iff.mp hnil)
  rw [Host.readBytes_eq_ok_iff] at hbytes
  rcases FileTree.find_of_readBytes host.workDir path bytes hbytes with ⟨place, executable, hfind⟩
  refine ⟨place, bytes, executable, hfind, ?_⟩
  have htext := (Prod.mk.inj (Except.ok.inj hread)).1
  simp only [rename, if_neg hne] at h
  split at h
  · exact absurd h failed_ne_ok
  · next known hknown =>
      rcases Prod.mk.inj h with ⟨rfl, hannounced⟩
      rw [← Except.ok.inj hannounced, ← htext]
      exact ⟨rfl, hknown, rfl⟩

theorem editAll_path (editor : Editor) (changes : List Edit) :
    (editor.editAll changes).path = editor.path := by
  induction changes generalizing editor with
  | nil => rfl
  | cons change changes ih => exact ih (editor.edit change)

-- The name that an editor saves under is nothing, or a path in normal form.
theorem canonicalPath_announced_normal (host : Host) (path announced target : Text)
    (hannounced : host.canonicalPath path = .ok announced)
    (htarget : host.canonicalPath announced = .ok target) (hne : target ≠ []) :
    Path.Normal target := by
  have habsolute : Path.isAbsolute announced = true := by
    refine Host.canonicalPath_isAbsolute_of_ne_nil host path announced hannounced fun hnil => hne ?_
    rw [hnil] at htarget
    exact (Except.ok.inj htarget).symm
  exact Host.canonicalPath_normal host announced target habsolute htarget hne

/-- A save after a load and some changes leaves everything as it was but what its
    target leads to. If the text of the path says where it leads and no more, this
    is the file that was read, and nothing else is changed or made. -/
theorem saved_where_read (blank loaded saved : Editor) (host after : Host) (path announced : Text)
    (changes : List Edit) (file : SavedFile) (hsound : host.Sound)
    (hload : blank.load host path = (loaded, .ok announced))
    (hsave : (loaded.editAll changes).save host [] = (after, saved, .ok file)) :
    ∃ place bytes executable,
      host.files.find host.workDir path = .ok (place, .file bytes executable)
        ∧ loaded.sourceText = shown bytes ∧ host.realPath path = .ok (Path.ofPlace place)
        ∧ (∀ other, host.files.kind? other ≠ none →
          host.files.walk host.workDir .kept file.path ≠ .ok (.present other) →
            after.files.kind? other = host.files.kind? other)
        ∧ (host.Literal path → file.path = Path.ofPlace place
          ∧ after.files.kind? place = some (.file (Utf8.encode (Text.withEnding loaded.ending.text
            (loaded.editAll changes).sourceText)) false)
          ∧ ∀ other, other ≠ place → after.files.kind? other = host.files.kind? other) := by
  rcases load_ok blank loaded host path announced hload with
    ⟨place, bytes, executable, hfind, htext, hannounced, hpath⟩
  rcases (FileTree.find_eq_ok_iff host.workDir path place _).mp hfind with ⟨hwalk, hentry⟩
  rcases Host.realPath_of_walk hsound path place hwalk with ⟨hreal, hdirect⟩
  have hkind : host.files.kind? place = some (.file bytes executable) := by
    rw [FileTree.kind?, hentry]
    rfl
  have hreturn : '\r' ∉ (loaded.editAll changes).sourceText :=
    (editAll_unbroken loaded changes
      (load_unbroken blank loaded host path announced hload)).sourceText_no_return
  have hpathText : Text.orElse [] (loaded.editAll changes).pathText = announced := by
    change (loaded.editAll changes).path.getD [] = announced
    rw [editAll_path, hpath]
    rfl
  have hwritten := save_cases _ saved host after [] _ hsave
  rw [hpathText, editAll_ending] at hwritten
  refine ⟨place, bytes, executable, hfind, htext, hreal, fun other hthere hapart => ?_,
    fun hliteral => ?_⟩
  · rcases hwritten with ⟨rfl, _⟩ | ⟨target, result, htarget, hne, hwrite, hgave, _⟩
    · rfl
    · rcases hgave file rfl with ⟨rfl, hfile⟩
      rw [hfile] at hapart
      exact Host.writeSource_keeps host after target _ _ _
        (canonicalPath_announced_normal host path announced target hannounced htarget hne) hwrite
        other hthere hapart
  · -- The real path is the name of the file, when it is loaded and again when it is saved.
    have hname := Host.canonicalPath_of_walk hsound path place hwalk hliteral.trimmed
      hliteral.noHome
    rw [hannounced, Except.ok.injEq] at hname
    have hagain := Host.canonicalPath_ofPlace hsound.targets place hdirect (hliteral.real _ hreal)
    have hnonempty : Path.ofPlace place ≠ [] := by
      intro hnil
      have habsolute := Path.isAbsolute_ofPlace place
      rw [hnil] at habsolute
      exact absurd habsolute (by decide)
    rw [hname, hagain] at hwritten
    rcases hwritten with ⟨_, ⟨failure, hfailed⟩ | ⟨hnothing, _⟩⟩
      | ⟨target, result, htarget, hne, hwrite, hgave, _⟩
    · exact absurd hfailed (by simp only [reduceCtorEq, not_false_eq_true])
    · exact absurd (Except.ok.inj hnothing) hnonempty
    · rcases hgave file rfl with ⟨rfl, hfile⟩
      rw [Except.ok.injEq] at htarget
      rw [← htarget] at hwrite hfile
      exact ⟨hfile, Host.writeSource_frame host after _ _ _ place hdirect.normal hreturn
        (hdirect.walk_kept host.workDir bytes executable hkind) hwrite⟩

/-- A host whose working directory holds two files, and has a second name that is a
    link. -/
def hostWithWork : Host :=
  { Host.ofFiles ⟨[("l", .link "work"), ("work", .directory [
      ("a.go", .file (Utf8.encode "a\r\n") true), ("b.go", .file (Utf8.encode "b\n") false)])]⟩ with
    workDir := ["work"] }

theorem hostWithWork_sound : hostWithWork.Sound where
  workDir := by
    refine ⟨fun name hname => ?_, ?_⟩
    · rw [List.mem_singleton.mp hname]
      exact ⟨⟨by decide, by decide, by decide, by decide⟩, by decide⟩
    · exact .step [] "work" [] ⟨0, ["work"], []⟩ 0 ["work"] rfl (.arrived ["work"])
  directory := rfl
  targets := by
    refine Entry.noNul_directory _ fun entry hentry => ?_
    rcases List.mem_cons.mp hentry with rfl | hentry
    · exact Entry.noNul_link "work" (by decide)
    rw [List.mem_singleton.mp hentry]
    refine Entry.noNul_directory _ fun entry hentry => ?_
    rcases List.mem_cons.mp hentry with rfl | hentry
    · exact Entry.noNul_file _ _
    · rw [List.mem_singleton.mp hentry]
      exact Entry.noNul_file _ _

/-- A file read through a link and a pair of dots, by a path seen from the working
    directory. The file that is changed is the one in the directory the link leads
    to. -/
theorem saved_where_read_linked :
    let host := hostWithWork
    ∃ loaded after saved, empty.load host "../l/./a.go" = (loaded, .ok "/work/a.go")
      ∧ (loaded.editAll [⟨0, 1, "é"⟩]).save host [] = (after, saved, .ok ⟨"/work/a.go", none⟩)
      ∧ host.Literal "../l/./a.go"
      ∧ after.files.kind? ["work", "a.go"] = some (.file (Utf8.encode "é\r\n") false)
      ∧ ∀ other, other ≠ (["work", "a.go"] : Place) →
        after.files.kind? other = host.files.kind? other := by
  intro host
  let first := empty.load host "../l/./a.go"
  have hfirst : first.2 = .ok "/work/a.go" := eq_ok_of_toOption _ _ (by decide +kernel)
  let result := (first.1.editAll [⟨0, 1, "é"⟩]).save host []
  have hresult : result.2.2 = .ok ⟨"/work/a.go", none⟩ := eq_ok_of_toOption _ _ (by decide +kernel)
  have hload : first = (first.1, .ok "/work/a.go") := by rw [← hfirst]
  have hsave : result = (result.1, result.2.1, .ok ⟨"/work/a.go", none⟩) := by rw [← hresult]
  have hreal : host.realPath "../l/./a.go" = .ok "/work/a.go" :=
    eq_ok_of_toOption _ _ (by decide +kernel)
  have hliteral : host.Literal "../l/./a.go" := by
    refine ⟨by decide, ?_, fun real h => ?_⟩
    · rintro ⟨_, name, rest, hnames, htilde⟩
      have hparse : (FilePath.parse "../l/./a.go").names = [Path.up, "l", "a.go"] := by decide
      rw [hparse] at hnames
      rw [← (List.cons.inj hnames).1] at htilde
      exact absurd htilde (by decide)
    · rw [hreal, Except.ok.injEq] at h
      rw [← h]
      decide
  rcases saved_where_read empty first.1 result.2.1 host result.1 "../l/./a.go" "/work/a.go"
    [⟨0, 1, "é"⟩] ⟨"/work/a.go", none⟩ hostWithWork_sound hload hsave with
    ⟨place, bytes, executable, hfind, _, _, _, hwhere⟩
  have hplace : host.files.find host.workDir "../l/./a.go"
      = .ok (["work", "a.go"], .file (Utf8.encode "a\r\n") true) := rfl
  rw [hplace, Except.ok.injEq, Prod.mk.injEq] at hfind
  rw [← hfind.1] at hwhere
  rcases hwhere hliteral with ⟨_, hfile, hothers⟩
  refine ⟨first.1, result.1, result.2.1, hload, hsave, hliteral, ?_, hothers⟩
  rw [hfile]
  decide +kernel

/-- A file whose name ends in a blank, beside a file of the same name without it.
    What was read from the first one is written over the second one. -/
theorem blank_name_misleads :
    let host : Host := .ofFiles ⟨[("a.go ", .file (Utf8.encode "mine\n") false),
      ("a.go", .file (Utf8.encode "yours\n") false)]⟩
    ∃ loaded after saved, empty.load host "/a.go " = (loaded, .ok "/a.go")
      ∧ (loaded.editAll [⟨0, 0, "x"⟩]).save host [] = (after, saved, .ok ⟨"/a.go", none⟩)
      ∧ host.realPath "/a.go " = .ok "/a.go "
      ∧ host.readBytes "/a.go " = .ok (Utf8.encode "mine\n")
      ∧ after.files.kind? ["a.go "] = some (.file (Utf8.encode "mine\n") false)
      ∧ host.files.kind? ["a.go"] = some (.file (Utf8.encode "yours\n") false)
      ∧ after.files.kind? ["a.go"] = some (.file (Utf8.encode "xmine\n") false) := by
  intro host
  let first := empty.load host "/a.go "
  have hfirst : first.2 = .ok "/a.go" := eq_ok_of_toOption _ _ (by decide +kernel)
  let result := (first.1.editAll [⟨0, 0, "x"⟩]).save host []
  have hresult : result.2.2 = .ok ⟨"/a.go", none⟩ := eq_ok_of_toOption _ _ (by decide +kernel)
  exact ⟨first.1, result.1, result.2.1, by rw [← hfirst], by rw [← hresult],
    eq_ok_of_toOption _ _ (by decide +kernel), eq_ok_of_toOption _ _ (by decide +kernel),
    by decide +kernel, by decide +kernel, by decide +kernel⟩

end Editor

end QueryDesk
