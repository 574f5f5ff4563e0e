import QueryDesk.Desk.Startup
import QueryDesk.Proofs.Host.Refill

/-!
# Files asked for by name

A user names files by texts that lose the blanks around them and may begin with a home
directory. Most names of nothing that is a file are passed over: there may be nothing at the
path, or a directory, or a loop of links, or a NUL character in it. Two kinds of names end the
asking instead. The home directory a name begins with may not be known, and a path, or a name
on the way, may be too long to be asked about.

What is found is known by its real path, which is that of the place the name leads to.

## Main definitions

* `Host.Askable`: A name of which it can be said whether it names a file.
* `Host.fileNamed?`: The place of the file that a name leads to.

## Theorems

* `FileTree.find_fault`: The faults that a path can be found with.
* `Host.existingFile_ok_iff`, `Host.existingFiles_ok_iff`: What asking for files gives.
-/

namespace QueryDesk

namespace FileCause

/-- A walk that only follows links can stop for this cause: nothing is there, or a path or a
    name is too long. -/
def StopsWalk (cause : FileCause) : Prop :=
  cause.meansAbsent = true ∨ cause = .nameTooLong

end FileCause

namespace FileTree

variable {tree : FileTree}

theorem advance_stops (way : Way) (names : List Text) (cause : FileCause)
    (h : tree.advance .followed way names = .stopped cause) : cause.StopsWalk := by
  induction names generalizing way with
  | nil => exact absurd h (by simp only [advance, reduceCtorEq, not_false_eq_true])
  | cons name rest ih =>
      rw [advance] at h
      split at h
      · next entries hinside =>
          -- Nothing is to be written, so a slash at the end does not stop the walk.
          rw [show (LastName.followed == .written && endsInSlash rest) = false from rfl,
            if_neg Bool.false_ne_true] at h
          split at h
          · exact ih way h
          split at h
          · exact ih way.tail h
          split at h
          · exact Or.inr (Advance.stopped.inj h).symm
          split at h
          · split at h
            · exact absurd h (by simp only [reduceCtorEq, not_false_eq_true])
            · exact Or.inl (Advance.stopped.inj h ▸ rfl)
          · rw [show (LastName.followed == .kept) = false from rfl, Bool.and_false,
              if_neg Bool.false_ne_true] at h
            exact absurd h (by simp only [reduceCtorEq, not_false_eq_true])
          · exact ih _ h
      · exact Or.inl (Advance.stopped.inj h ▸ rfl)

theorem walkNames_stops (links : Nat) (way : Way) (names : List Text) (cause : FileCause)
    (h : tree.walkNames .followed links way names = .error cause) : cause.StopsWalk := by
  induction links generalizing way names with
  | zero => exact Or.inl (Except.error.inj h ▸ rfl)
  | succ links ih =>
      rw [walkNames] at h
      split at h
      · exact absurd h (by simp only [reduceCtorEq, not_false_eq_true])
      · exact absurd h (by simp only [reduceCtorEq, not_false_eq_true])
      · next stopped hstopped => exact Except.error.inj h ▸ advance_stops way names _ hstopped
      · exact ih _ _ h

/-- The faults that a path can be found with. It is no path, or a walk along it stops. -/
theorem find_fault (workDir : Place) (path : Text) (fault : FileFault)
    (h : tree.find workDir path = .error fault) :
    fault = .notPath ∨ ∃ cause : FileCause, cause.StopsWalk ∧ fault = .refused cause path none := by
  have habsent : FileCause.notFound.StopsWalk := Or.inl rfl
  unfold find at h
  split at h
  · next walked hwalk =>
      rw [← Except.error.inj h]
      unfold walk at hwalk
      split at hwalk
      · exact Or.inl (Except.error.inj hwalk).symm
      split at hwalk
      · exact Or.inr ⟨_, habsent, (Except.error.inj hwalk).symm⟩
      split at hwalk
      · exact Or.inr ⟨_, Or.inr rfl, (Except.error.inj hwalk).symm⟩
      simp only at hwalk
      split at hwalk
      · exact absurd hwalk (by simp only [reduceCtorEq, not_false_eq_true])
      · next cause hstopped =>
          exact Or.inr ⟨cause, walkNames_stops _ _ _ cause hstopped, (Except.error.inj hwalk).symm⟩
  · exact Or.inr ⟨_, habsent, (Except.error.inj h).symm⟩
  · split at h
    · exact absurd h (by simp only [reduceCtorEq, not_false_eq_true])
    · exact Or.inr ⟨_, habsent, (Except.error.inj h).symm⟩

end FileTree

namespace Host

variable {host : Host}

/-- It can be said whether the name is that of a file: the home directory it begins with is
    known, and nothing on the way is too long. -/
def Askable (host : Host) (name : Text) : Prop :=
  ∃ path, host.expandHome (FilePath.parse (Text.trim name)) = .ok path
    ∧ host.files.find host.workDir path.text ≠ .error (.refused .nameTooLong path.text none)

/-- The place of the file that the name leads to, none when it is the name of nothing that is a
    file. -/
def fileNamed? (host : Host) (name : Text) : Option Place :=
  match host.expandHome (FilePath.parse (Text.trim name)) with
  | .error _ => none
  | .ok path =>
      match host.files.find host.workDir path.text with
      | .ok (place, .file _ _) => some place
      | _ => none

theorem hasFile_of_fileNamed? (hsound : host.Sound) {name : Text} {place : Place}
    (h : host.fileNamed? name = some place) : host.HasFile place := by
  unfold fileNamed? at h
  split at h
  · exact absurd h (Option.some_ne_none place).symm
  next path hpath =>
  split at h
  · next found content executable hfind =>
      rw [← Option.some.inj h]
      exact (hasFile_of_find hsound path.text found content executable hfind).1
  · exact absurd h (Option.some_ne_none place).symm

-- Asking about a path that is expanded. It has to be short enough.
theorem existingFile_of_expandHome (hsound : host.Sound) (name : Text) (path : FilePath)
    (hpath : host.expandHome (FilePath.parse (Text.trim name)) = .ok path) :
    (host.files.find host.workDir path.text = .error (.refused .nameTooLong path.text none)
        ∧ ∃ failure, host.existingFile name = .error failure)
      ∨ host.files.find host.workDir path.text ≠ .error (.refused .nameTooLong path.text none)
        ∧ host.existingFile name = .ok ((host.fileNamed? name).map Path.ofPlace) := by
  unfold existingFile fileNamed? Host.test FileTree.test
  simp only [hpath]
  cases hfind : host.files.find host.workDir path.text with
  | error fault =>
      rcases FileTree.find_fault host.workDir path.text fault hfind with
        rfl | ⟨cause, habsent | rfl, rfl⟩
      · exact Or.inr ⟨by simp only [ne_eq, Except.error.injEq, reduceCtorEq, not_false_eq_true],
          rfl⟩
      · refine Or.inr ⟨?_, by simp only [habsent, if_true]; rfl⟩
        rintro heq
        rw [(FileFault.refused.inj (Except.error.inj heq)).1] at habsent
        exact Bool.noConfusion habsent
      · exact Or.inl ⟨rfl, _, rfl⟩
  | ok found =>
      rcases found with ⟨place, entry⟩
      refine Or.inr ⟨by simp only [ne_eq, reduceCtorEq, not_false_eq_true], ?_⟩
      cases entry with
      | link target => rfl
      | directory entries => rfl
      | file content executable =>
          -- The real path leads to the place that was found, so nothing is left to resolve.
          rcases hasFile_of_find hsound path.text place content executable hfind with
            ⟨hplace, hreal⟩
          have hresolve := resolve_of_realPath path place (linkFree_direct hplace.direct) hreal
          simp only [Entry.isFile, hresolve]
          rfl

/-- What asking for a file by its name gives: the real path of the file it leads to, if there is
    one. -/
theorem existingFile_ok_iff (hsound : host.Sound) (name : Text) (found : Option Text) :
    host.existingFile name = .ok found
      ↔ host.Askable name ∧ found = (host.fileNamed? name).map Path.ofPlace := by
  cases hpath : host.expandHome (FilePath.parse (Text.trim name)) with
  | error failure =>
      refine iff_of_false (fun h => ?_) (fun h => ?_)
      · simp only [existingFile, hpath, reduceCtorEq] at h
      · rcases h.1 with ⟨path, hok, -⟩
        exact absurd (hpath.symm.trans hok) (by simp only [reduceCtorEq, not_false_eq_true])
  | ok path =>
      have haskable : host.Askable name ↔ host.files.find host.workDir path.text
          ≠ .error (.refused .nameTooLong path.text none) :=
        ⟨fun ⟨other, hother, hshort⟩ => Except.ok.inj (hpath.symm.trans hother) ▸ hshort,
          fun hshort => ⟨path, hpath, hshort⟩⟩
      rw [haskable]
      rcases existingFile_of_expandHome hsound name path hpath with
        ⟨hlong, failure, hfailed⟩ | ⟨hshort, hasked⟩
      · rw [hfailed]
        exact iff_of_false (by simp only [reduceCtorEq, not_false_eq_true]) fun h => h.1 hlong
      · rw [hasked, Except.ok.injEq, and_iff_right hshort, eq_comm]

/-- What asking for files by their names gives. One name that cannot be asked about is enough
    to get nothing. -/
theorem existingFiles_ok_iff (hsound : host.Sound) (names : List Text) (paths : List Text) :
    host.existingFiles names = .ok paths
      ↔ (∀ name ∈ names, host.Askable name)
        ∧ paths = (names.filterMap host.fileNamed?).map Path.ofPlace := by
  induction names generalizing paths with
  | nil =>
      rw [existingFiles, Except.ok.injEq, and_iff_right (List.forall_mem_nil _), eq_comm]
      rfl
  | cons name names ih =>
      rw [existingFiles, List.forall_mem_cons]
      cases hfirst : host.existingFile name with
      | error failure =>
          have hno : ¬ host.Askable name := fun hasked => absurd
            (hfirst.symm.trans ((existingFile_ok_iff hsound name _).mpr ⟨hasked, rfl⟩))
            (by simp only [reduceCtorEq, not_false_eq_true])
          exact iff_of_false (by simp only [reduceCtorEq, not_false_eq_true]) fun h => hno h.1.1
      | ok found =>
          rcases (existingFile_ok_iff hsound name found).mp hfirst with ⟨hasked, rfl⟩
          have hjoined : (List.filterMap host.fileNamed? (name :: names)).map Path.ofPlace
              = ((host.fileNamed? name).map Path.ofPlace).toList
                ++ (names.filterMap host.fileNamed?).map Path.ofPlace := by
            rw [List.filterMap_cons]
            cases host.fileNamed? name with
            | none => rfl
            | some place => rfl
          rw [hjoined, and_iff_right hasked]
          cases hrest : host.existingFiles names with
          | error failure =>
              have hno : ¬ ∀ name ∈ names, host.Askable name := fun hall => absurd
                (hrest.symm.trans ((ih _).mpr ⟨hall, rfl⟩))
                (by simp only [reduceCtorEq, not_false_eq_true])
              exact iff_of_false (by simp only [reduceCtorEq, not_false_eq_true]) fun h => hno h.1
          | ok others =>
              rcases (ih others).mp hrest with ⟨hall, rfl⟩
              simp only [Except.ok.injEq]
              rw [and_iff_right hall, eq_comm]

end Host

end QueryDesk
