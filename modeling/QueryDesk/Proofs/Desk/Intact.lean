import QueryDesk.Proofs.Desk.Target

/-!
# A write that fails

A source file is written as a whole or not at all. The text goes to a temporary file
first, and only when all of it is there is that file moved to where the path leads. A
failure before that, of the tree or of the system, leaves what was there as it was. New are
at most the directories that were missing above the path.

The temporary file is taken away after a failure, and this is an attempt like the others.
In a directory to which files can only be added it is refused, just as the move is, and
then the temporary file stays, with as much of the text as was written. Nothing is done
about that.

A file that was written replaces what the path named at the moment of the move: a link at
its end is replaced, and what the link led to stays as it is. Where the path leads is found
out before, so a path that goes through the very link it ends in leads nowhere afterwards.

An editor that is saved changes only after its file was written. What is left then is to
know the file by its name, which is an absolute path and has a canonical path whatever the
file tree is by now. So a save that fails has failed before the editor changed.

## Theorems

* `save_error`: What a save that failed did.
* `written_or_intact`: A file is written as a whole, or nothing that was there changes.
* `stays_or_is_lost`: A temporary file that stays, and a file its path does not lead to.
-/

namespace QueryDesk

namespace Editor

/-- A save that failed gave the editor back. Either it wrote nothing, or the file could not
    be written under the name that the path has. -/
theorem save_error (editor saved : Editor) (host after : Host) (path : Text) (failure : Failure)
    (h : editor.save host path = (after, saved, .error failure)) :
    saved = editor ∧ (after = host
      ∨ ∃ target, host.canonicalPath (path.orElse editor.pathText) = .ok target
        ∧ host.writeSource target editor.sourceText editor.ending.text .utf8
          = (after, .error failure)) := by
  cases save_saves editor saved host after path _ h with
  | unnamed => exact ⟨rfl, Or.inl rfl⟩
  | unwritten hname _ hwrite => exact ⟨rfl, Or.inr ⟨_, hname, hwrite⟩⟩

/-- On every host, a source file that cannot be written leaves everything as it was, but for
    directories that were missing above it, and the temporary file where the system refuses
    to remove it. Where it removes what it is asked to, nothing but directories is new. A
    source file that is written is then put where its path leads, in the place of a link if
    there is one, as the bytes of its text, and nothing else changes. Its path leads to it or
    nowhere. It leads to it if no link was replaced, from the root or a working directory that
    is there. A save that fails gives the editor back, and leaves the host as such a write does
    or as it was. -/
theorem written_or_intact (host : Host) :
    (∀ (path text ending : Text) (encoding : Encoding) (after : Host)
        (result : Except Failure Unit),
      host.writeSource path text ending encoding = (after, result) →
        match result with
        | .error _ =>
          host.GivesUp after (FilePath.parse path)
              ((encoding.encode? (Host.sourcePayload text ending)).getD [])
            ∧ (host.refusals.Admits Attempt.Removes → host.files.Extends after.files)
        | .ok () => ∃ bytes, encoding.encode? (Host.sourcePayload text ending) = some bytes
            ∧ host.Writes after (FilePath.parse path) bytes)
      ∧ ∀ (editor saved : Editor) (path : Text) (after : Host) (failure : Failure),
        editor.save host path = (after, saved, .error failure) →
          saved = editor ∧ (after = host
            ∨ ∃ target, host.canonicalPath (path.orElse editor.pathText) = .ok target
              ∧ host.GivesUp after (FilePath.parse target) ((Encoding.utf8.encode?
                (Host.sourcePayload editor.sourceText editor.ending.text)).getD [])) := by
  refine ⟨fun path text ending encoding after result h => ?_,
    fun editor saved path after failure h => ?_⟩
  · cases result with
    | error failure =>
        have hgives := Host.writeSource_gives_up h
        exact ⟨hgives, hgives.extends⟩
    | ok done => exact Host.writeSource_writes h
  · rcases save_error editor saved host after path failure h with
      ⟨hsaved, hhost | ⟨target, hpath, hwrite⟩⟩
    · exact ⟨hsaved, Or.inl hhost⟩
    · exact ⟨hsaved, Or.inr ⟨target, hpath, Host.writeSource_gives_up hwrite⟩⟩

/-- A link that is replaced by a file, a text that has no bytes and leaves a directory, and
    an editor given back by a save to a name that is too long. -/
theorem written_or_intact_link :
    let host := hostWithLink (Utf8.encode "old")
    let editor := ofFile "/a.go" (Utf8.encode "new")
    let long : Text := List.replicate 250 'x'
    (∃ after, host.writeSource "/l" "é\n" "\r\n" .latin1 = (after, .ok ())
        ∧ host.Writes after (FilePath.parse "/l") [0xE9, 0x0D, 0x0A])
      ∧ (∃ after, host.writeSource "/d/e.go" "é" "\n" .ascii = (after, .error .notEncodable)
        ∧ host.GivesUp after (FilePath.parse "/d/e.go") []
        ∧ host.files.Extends after.files
        ∧ after.files.kind? ["d"] = some .directory)
      ∧ ∃ after failure, editor.save host ("/d/" ++ long) = (after, editor, .error failure)
        ∧ host.GivesUp after (FilePath.parse ("/d/" ++ long)) (Utf8.encode "new") := by
  intro host editor long
  rcases written_or_intact host with ⟨hwrites, hsaves⟩
  refine ⟨?_, ?_, ?_⟩
  · have hlatin : Encoding.latin1.encode? (Host.sourcePayload "é\n" "\r\n")
        = some [0xE9, 0x0D, 0x0A] := by decide +kernel
    have hdone : (host.writeSource "/l" "é\n" "\r\n" .latin1).2.toOption = some () := by
      decide +kernel
    rcases houtcome : host.writeSource "/l" "é\n" "\r\n" .latin1 with ⟨after, failure | done⟩
    · rw [houtcome] at hdone
      exact absurd hdone (Option.some_ne_none ()).symm
    · rcases hwrites _ _ _ _ _ _ houtcome with ⟨bytes, hbytes, hputs⟩
      rw [Option.some.inj (hbytes.symm.trans hlatin)] at hputs
      exact ⟨after, rfl, hputs⟩
  · have hascii : (Encoding.ascii.encode? (Host.sourcePayload "é" "\n")).getD [] = [] := by
      decide +kernel
    have hmade : (host.writeSource "/d/e.go" "é" "\n" .ascii).1.files.kind? ["d"]
        = some .directory := by decide +kernel
    obtain ⟨after, hwrite⟩ : ∃ after,
        host.writeSource "/d/e.go" "é" "\n" .ascii = (after, .error .notEncodable) := ⟨_, rfl⟩
    rcases hwrites "/d/e.go" "é" "\n" .ascii after _ hwrite with ⟨hgives, hextends⟩
    rw [hascii] at hgives
    rw [hwrite] at hmade
    exact ⟨after, hwrite, hgives, hextends (Refusals.admits_none _), hmade⟩
  · let saving := editor.save host ("/d/" ++ long)
    have hfailed : saving.2.2.toOption = none := by decide +kernel
    have hnone : host.files.kind? ["d"] = none := rfl
    have hmade : saving.1.files.kind? ["d"] = some .directory := by decide +kernel
    have hname : host.canonicalPath ("/d/" ++ long) = .ok ("/d/" ++ long) :=
      eq_ok_of_toOption _ _ (by decide +kernel)
    have hbytes : (Encoding.utf8.encode?
        (Host.sourcePayload editor.sourceText editor.ending.text)).getD [] = Utf8.encode "new" := by
      decide +kernel
    rcases houtcome : saving with ⟨after, saved, failure | file⟩
    · rw [houtcome] at hmade
      rcases hsaves editor saved ("/d/" ++ long) after failure houtcome with
        ⟨rfl, rfl | ⟨target, htarget, hgives⟩⟩
      · exact absurd (hnone.symm.trans hmade) (Option.some_ne_none _).symm
      · rw [← Except.ok.inj (hname.symm.trans htarget), hbytes] at hgives
        exact ⟨after, failure, houtcome, hgives⟩
    · rw [houtcome] at hfailed
      exact absurd hfailed (Option.some_ne_none file)

/-- Where nothing can be moved or removed a write fails and its temporary file stays, with all
    of the text. And a write by a path that goes through the link it ends in goes well, and no
    file can be read at the path. -/
theorem stays_or_is_lost :
    (let host := { Host.ofFiles ⟨[]⟩ with
        refusals := .forbidding fun attempt => attempt matches .move _ _ | .remove _ }
      ∃ after failure, host.writeSource "/a.go" "x" "\n" .utf8 = (after, .error failure)
        ∧ host.files.kind? ["a.go.RANDOM.tmp"] = none
        ∧ after.files.kind? ["a.go.RANDOM.tmp"] = some (.file (Utf8.encode "x") false))
      ∧ let host := Host.ofFiles ⟨[("l", .link ".")]⟩
        ∃ after, host.writeSource "l/l" "x" "\n" .utf8 = (after, .ok ())
          ∧ ∀ bytes, after.readBytes "l/l" ≠ .ok bytes := by
  refine ⟨⟨_, _, rfl, rfl, rfl⟩, _, rfl, fun bytes hread => ?_⟩
  have hnone : ((Host.ofFiles ⟨[("l", .file (Utf8.encode "x") false)]⟩).readBytes "l/l").toOption
      = none := by decide +kernel
  exact absurd (hnone.symm.trans (congrArg Except.toOption hread)) (Option.some_ne_none bytes).symm

end Editor

end QueryDesk
