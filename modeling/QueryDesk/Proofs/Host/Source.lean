import QueryDesk.Host.Source
import QueryDesk.Proofs.Files.Moved
import QueryDesk.Proofs.Text.Ending

/-!
# Source files that were written

A source file is replaced as a whole, so what is read from its path afterwards is
what was written there: the text with the ending for each line feed. Reading it
can only fail when the path was a link, because the link is gone then and may
have been needed on the way.

Nothing else that was there changes, whether or not the file could be written. What
is new besides it are the directories that were missing above it, and after a failure
the temporary file if the system refused to remove that.

## Main definitions

* `Host.GivesUp`: What a source file that could not be written leaves.
* `Host.Writes`: A file that was put where a path leads, and directories above it.

## Theorems

* `writeSource_replaces`: Writing a source file replaces it.
* `writeSource_gives_up`: A source file that could not be written.
* `writeSource_writes`: A source file that was written.
* `writeSource_ok`: What a source file that was written is replaced by.
* `writeSource_noLink`: The path of a source file that was written is no link.
* `writeSource_error`: A source file that could not be written leaves a larger tree.
* `readBytes_writeSource`: What is read from a source file that was written.
* `writeSource_keeps`, `writeSource_frame`: What is elsewhere stays as it was.
-/

namespace QueryDesk

namespace Host

/-- Nothing has changed but that directories were made above a path, and nothing is left of
    what was to be written there, unless the system refused to remove the temporary file. -/
def GivesUp (host after : Host) (path : FilePath) (content : Bytes) : Prop :=
  after = { host with files := after.files }
    ∧ ∃ made, FileTree.Raises host.workDir path.parent host.files made
      ∧ host.files.Extends made
      ∧ FileTree.Leaves host.refusals host.workDir path content made after.files

/-- Nothing has changed but that directories were made above a path, and then a file was
    put where the path leads. -/
def Writes (host after : Host) (path : FilePath) (content : Bytes) : Prop :=
  after = { host with files := after.files }
    ∧ ∃ made, FileTree.Raises host.workDir path.parent host.files made
      ∧ host.files.Extends made
      ∧ FileTree.Puts host.workDir path.text content made after.files

/-- Where the system removes what it is asked to, nothing but directories is new. -/
theorem GivesUp.extends {host after : Host} {path : FilePath} {content : Bytes}
    (h : host.GivesUp after path content) (hremoves : host.refusals.Admits Attempt.Removes) :
    host.files.Extends after.files := by
  rcases h with ⟨-, made, -, hextends, hleaves⟩
  exact hextends.trans (.of_kinds (hleaves.nothing_left hremoves))

/-- Writing a source file replaces it by the encoded text, and goes well just when that
    does. -/
theorem writeSource_replaces {host after : Host} {path text ending : Text} {encoding : Encoding}
    {result : Except Failure Unit}
    (h : host.writeSource path text ending encoding = (after, result)) :
    ∃ files outcome, after = { host with files }
      ∧ host.files.replaceFile host.refusals host.workDir (FilePath.parse path)
          (encoding.encode? (sourcePayload text ending)) = (files, outcome)
      ∧ (result = .ok () ↔ outcome = .ok ()) := by
  unfold writeSource at h
  simp only at h
  split at h
  · next files hreplace =>
      rcases Prod.mk.inj h with ⟨rfl, rfl⟩
      exact ⟨files, _, rfl, hreplace, iff_of_true rfl rfl⟩
  · next files fault hreplace =>
      rcases Prod.mk.inj h with ⟨rfl, rfl⟩
      exact ⟨files, _, rfl, hreplace, by simp only [reduceCtorEq]⟩

/-- A source file that could not be written leaves directories above it, and besides them at
    most its temporary file. -/
theorem writeSource_gives_up {host after : Host} {path text ending : Text} {encoding : Encoding}
    {failure : Failure} (h : host.writeSource path text ending encoding = (after, .error failure)) :
    host.GivesUp after (FilePath.parse path)
      ((encoding.encode? (sourcePayload text ending)).getD []) := by
  rcases writeSource_replaces h with ⟨files, outcome, rfl, hreplace, hresult⟩
  cases outcome with
  | ok done => exact absurd (hresult.mpr rfl) (by simp only [reduceCtorEq, not_false_eq_true])
  | error fault =>
      rcases FileTree.replaceFile_error _ _ _ _ _ _ hreplace with ⟨made, hraises, hleaves⟩
      exact ⟨rfl, made, hraises, hraises.adds, hleaves⟩

/-- A source file that was written stands, encoded, where its path leads. -/
theorem writeSource_writes {host after : Host} {path text ending : Text} {encoding : Encoding}
    (h : host.writeSource path text ending encoding = (after, .ok ())) :
    ∃ bytes, encoding.encode? (sourcePayload text ending) = some bytes
      ∧ host.Writes after (FilePath.parse path) bytes := by
  rcases writeSource_replaces h with ⟨files, outcome, rfl, hreplace, hresult⟩
  rw [hresult.mp rfl] at hreplace
  rcases FileTree.replaceFile_ok _ _ _ _ _ hreplace with ⟨made, bytes, hbytes, hraises, hputs⟩
  exact ⟨bytes, hbytes, rfl, made, hraises, hraises.adds, hputs⟩

/-- Writing a source file replaces it by the text with its ending. -/
theorem writeSource_ok (host after : Host) (path text ending : Text)
    (h : host.writeSource path text ending .utf8 = (after, .ok ())) :
    ∃ files, after = { host with files }
      ∧ host.files.replaceFile host.refusals host.workDir (FilePath.parse path)
          (some (Utf8.encode (sourcePayload text ending))) = (files, .ok ()) := by
  rcases writeSource_replaces h with ⟨files, outcome, hafter, hreplace, hresult⟩
  rw [hresult.mp rfl] at hreplace
  rcases FileTree.replaceFile_steps hreplace with ⟨_, _, bytes, hbytes, -⟩
  rw [hbytes, Encoding.eq_of_encode?_utf8 hbytes] at hreplace
  exact ⟨files, hafter, hreplace⟩

theorem writeSource_workDir {host after : Host} {path text ending : Text} {encoding : Encoding}
    {result : Except Failure Unit}
    (h : host.writeSource path text ending encoding = (after, result)) :
    after.workDir = host.workDir := by
  rcases writeSource_replaces h with ⟨files, outcome, rfl, _⟩
  rfl

theorem readBytes_eq_ok_iff (host : Host) (path : Text) (bytes : Bytes) :
    host.readBytes path = .ok bytes ↔ host.files.readBytes host.workDir path = .ok bytes := by
  unfold readBytes
  cases host.files.readBytes host.workDir path with
  | error fault => simp only [reduceCtorEq]
  | ok found => simp only [Except.ok.injEq]

/-- What is read back from a source file that was written is what was written. It
    can be read when the path was no link. -/
theorem readBytes_writeSource (host after : Host) (path text ending : Text)
    (hnormal : Path.Normal path) (hreturn : '\r' ∉ text)
    (h : host.writeSource path text ending .utf8 = (after, .ok ())) :
    (∀ bytes, after.readBytes path = .ok bytes →
        bytes = Utf8.encode (Text.withEnding ending text))
      ∧ ((∀ place, host.files.walk host.workDir .kept path = .ok (.present place) →
          host.files.linkAt? place = none) →
        after.readBytes path = .ok (Utf8.encode (Text.withEnding ending text))) := by
  rcases writeSource_ok host after path text ending h with ⟨files, rfl, hreplace⟩
  rcases hnormal with ⟨slashes, names, hslashes, hnames, rfl⟩
  rw [Path.parse_write slashes names hslashes hnames, sourcePayload,
    Text.unpair_eq_self_of_no_return text hreturn] at hreplace
  refine ⟨fun bytes hread => ?_, fun hlink => ?_⟩
  · exact FileTree.readBytes_replaceFile host.files files host.workDir slashes names _ bytes
      hslashes hnames hreplace ((readBytes_eq_ok_iff _ _ _).mp hread)
  · exact (readBytes_eq_ok_iff _ _ _).mpr (FileTree.replaceFile_readable host.files files
      host.workDir slashes names _ hslashes hnames hlink hreplace)

/-- The path of a source file that was written is no link. -/
theorem writeSource_noLink (host after : Host) (path text ending : Text)
    (hnormal : Path.Normal path) (h : host.writeSource path text ending .utf8 = (after, .ok ()))
    (place : Place) (hwalk : after.files.walk after.workDir .kept path = .ok (.present place)) :
    after.files.linkAt? place = none := by
  rcases writeSource_ok host after path text ending h with ⟨files, rfl, hreplace⟩
  rcases hnormal with ⟨slashes, names, hslashes, hnames, rfl⟩
  rw [Path.parse_write slashes names hslashes hnames] at hreplace
  exact FileTree.replaceFile_noLink host.files files host.workDir slashes names _ hslashes hnames
    hreplace place hwalk

/-- A source file that could not be written leaves at most new directories and a temporary
    file. -/
theorem writeSource_error (host after : Host) (path text ending : Text) (failure : Failure)
    (h : host.writeSource path text ending .utf8 = (after, .error failure)) :
    ∃ files, after = { host with files } ∧ host.files.Grows files := by
  rcases writeSource_gives_up h with ⟨hrest, made, -, hextends, hleaves⟩
  exact ⟨after.files, hrest, hextends.grows_trans hleaves.grows⟩

/-- What was at any place but the one the path leads to is still there after a
    source file was written, or could not be. -/
theorem writeSource_keeps (host after : Host) (path text ending : Text)
    (result : Except Failure Unit) (hnormal : Path.Normal path)
    (h : host.writeSource path text ending .utf8 = (after, result)) (place : Place)
    (hthere : host.files.kind? place ≠ none)
    (hapart : host.files.walk host.workDir .kept path ≠ .ok (.present place)) :
    after.files.kind? place = host.files.kind? place := by
  cases result with
  | error failure =>
      rcases writeSource_error host after path text ending failure h with ⟨files, rfl, hgrows⟩
      exact hgrows.keeps place hthere
  | ok done =>
      rcases writeSource_ok host after path text ending h with ⟨files, rfl, hreplace⟩
      rcases hnormal with ⟨slashes, names, hslashes, hnames, rfl⟩
      rw [Path.parse_write slashes names hslashes hnames] at hreplace
      exact FileTree.replaceFile_keeps host.files files host.workDir slashes names _ hslashes hnames
        hreplace place hthere hapart

/-- What is written over what a path led to, if it can be walked at all, is there
    afterwards, and nothing else has changed. -/
theorem writeSource_payload (host after : Host) (path text ending : Text) (place : Place)
    (hnormal : Path.Normal path)
    (hwalk : Path.Admitted path → host.files.walk host.workDir .kept path = .ok (.present place))
    (h : host.writeSource path text ending .utf8 = (after, .ok ())) :
    after.files.kind? place = some (.file (Utf8.encode (sourcePayload text ending)) false)
      ∧ ∀ other, other ≠ place → after.files.kind? other = host.files.kind? other := by
  rcases writeSource_ok host after path text ending h with ⟨files, rfl, hreplace⟩
  rcases hnormal with ⟨slashes, names, hslashes, hnames, rfl⟩
  rw [Path.parse_write slashes names hslashes hnames] at hreplace
  rcases FileTree.replaceFile_replaced _ _ _ _ _ _ hslashes hnames hreplace with
    ⟨_, _, _, _, _, _, _, _, hadmitted, _⟩
  exact FileTree.replaceFile_frame host.files files host.workDir slashes names _ place hslashes
    hnames (hwalk hadmitted) hreplace

/-- A source file written over what a path led to, if it can be walked at all, is
    there afterwards, and nothing else has changed. -/
theorem writeSource_frame (host after : Host) (path text ending : Text) (place : Place)
    (hnormal : Path.Normal path) (hreturn : '\r' ∉ text)
    (hwalk : Path.Admitted path → host.files.walk host.workDir .kept path = .ok (.present place))
    (h : host.writeSource path text ending .utf8 = (after, .ok ())) :
    after.files.kind? place = some (.file (Utf8.encode (Text.withEnding ending text)) false)
      ∧ ∀ other, other ≠ place → after.files.kind? other = host.files.kind? other := by
  have hpayload := writeSource_payload host after path text ending place hnormal hwalk h
  rwa [sourcePayload, Text.unpair_eq_self_of_no_return text hreturn] at hpayload

end Host

end QueryDesk
