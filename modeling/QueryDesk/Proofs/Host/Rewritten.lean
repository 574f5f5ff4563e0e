import QueryDesk.Proofs.Desk.Saved
import QueryDesk.Proofs.Files.Named
import QueryDesk.Proofs.Host.Source
import QueryDesk.Proofs.Text.Fed

/-!
# Source files written from what was read of them

A source file is read and written again with the line ending it shows. Whether it comes out
as it was depends on the carriage returns before its feeds alone: it does when there are none
at all, and when there is one before each feed. Every other file is changed, but nothing in it
other than the numbers of these returns.

All of this is about a file that was written. One that could not be written has the bytes it
had, whatever its returns are. The text goes to a temporary file first, and the name of that
is longer by some characters, so a name or a path can be short enough for the file and too
long for the temporary one; a pair of dots after a link can make the directory another one;
and the system can refuse to make the file, to fill it or to move it. Where it refuses nothing
and there is room for the temporary file, the file is written.

## Main definitions

* `Host.KeepsMixed`: A write that fails and leaves a file with unequal runs of returns.

## Theorems

* `readSource_of_bytes`: What is read of a file of encoded text.
* `writeSource_named`: Writing over the file that a path names.
* `writeSource_readSource`: Writing a file from what was read of it.
* `writeSource_refused_mixed`: Files with unequal runs that are not written.
-/

namespace QueryDesk

namespace Host

variable {host : Host} {path : Text}

theorem readSource_of_bytes {raw : Text} (h : host.readBytes path = .ok (Utf8.encode raw)) :
    host.readSource path .utf8 = .ok (Text.unpair raw, LineEnding.detect raw) := by
  rw [readSource, h]
  simp only [Encoding.decodeLossy, Utf8.decodeLossy_encode]

/-- Writing over the file that a path names: what is read of it afterwards. -/
theorem writeSource_named {parent : Place} {name : Text} {bytes : Bytes} {executable : Bool}
    (h : host.files.Names host.workDir path parent name)
    (hleads : host.files.Leads host.workDir path (parent ++ [name]))
    (hkind : host.files.kind? (parent ++ [name]) = some (.file bytes executable))
    {text ending : Text} {after : Host} {result : Except Failure Unit}
    (hwrite : host.writeSource path text ending .utf8 = (after, result)) :
    match result with
    | .error _ => after.readBytes path = .ok bytes
    | .ok () => after.readBytes path = .ok (Utf8.encode (sourcePayload text ending)) := by
  cases result with
  | error failure =>
      rcases writeSource_error host after path text ending failure hwrite with
        ⟨files, rfl, hgrows⟩
      have hsame := hgrows.keeps _ (by rw [hkind]; exact Option.some_ne_none _)
      exact (readBytes_eq_ok_iff _ _ _).mpr
        ((hleads.refill hgrows.refills).readBytes (hsame.trans hkind))
  | ok done =>
      rcases writeSource_ok host after path text ending hwrite with ⟨files, rfl, hreplace⟩
      have hfilled := h.replaced ⟨bytes, executable, hkind⟩ _ hreplace
      exact (readBytes_eq_ok_iff _ _ _).mpr
        ((hleads.refill (hfilled.refills ⟨bytes, executable, hkind⟩)).readBytes hfilled.file)

/-- A file of encoded text that is written from what was read of it, with the ending it
    shows. When it was written it has the same bytes just when no feed has a return before it
    or every feed has exactly one; in any other file each run of returns before a feed is
    settled and the rest is kept. When it could not be written it has the bytes it had. It is
    written when a temporary file can be made for the path, the text has bytes, and the system
    refuses nothing. -/
theorem writeSource_readSource (host : Host) (path raw : Text)
    (hstart : host.files.kind? (FileTree.startOf host.workDir path) = some .directory)
    (hread : host.readBytes path = .ok (Utf8.encode raw))
    (hlink : ∀ place, host.files.walk host.workDir .kept path = .ok (.present place) →
      host.files.linkAt? place = none) :
    ∃ text ending, host.readSource path .utf8 = .ok (text, ending)
      ∧ (∃ fed : Text.Fed, fed.text = raw
        ∧ ∀ after result, host.writeSource path text ending.text .utf8 = (after, result) →
          match result with
          | .error _ => after.readBytes path = .ok (Utf8.encode raw)
          | .ok () =>
            after.readBytes path = .ok (Utf8.encode
                (if ∀ line ∈ fed.lines, line.returns = 0 then raw
                  else (fed.renew Text.settled).text))
              ∧ (after.readBytes path = .ok (Utf8.encode raw)
                ↔ (∀ line ∈ fed.lines, line.returns = 0)
                  ∨ ∀ line ∈ fed.lines, line.returns = 1))
      ∧ ∀ source bytes,
        host.files.temporaryFor host.refusals host.workDir (FilePath.parse path) = .ok source →
          Encoding.utf8.encode? (sourcePayload text ending.text) = some bytes →
            (host.refusals.Admits fun _ => True) →
              ∃ after, host.writeSource path text ending.text .utf8 = (after, .ok ()) := by
  rcases FileTree.leads_of_readBytes hstart ((readBytes_eq_ok_iff _ _ _).mp hread) with
    ⟨goal, executable, hleads, hkind⟩
  rcases FileTree.names_of_leads hleads ⟨_, _, hkind⟩ hlink with ⟨parent, name, rfl, hnames⟩
  rcases Text.exists_fed raw with ⟨fed, rfl⟩
  refine ⟨_, _, readSource_of_bytes hread, ⟨fed, rfl, fun after result hwrite => ?_⟩,
    fun source bytes hsource hbytes hadmits => ?_⟩
  · have hafter := writeSource_named hnames hleads hkind hwrite
    cases result with
    | error failure => exact hafter
    | ok done =>
        -- Before it is written the text is taken for one that was not read yet.
        change after.readBytes path = .ok (Utf8.encode (Text.rewritten fed.text)) at hafter
        refine ⟨?_, ?_⟩
        · rw [hafter, Text.rewritten_fed]
        · rw [hafter, ← Text.rewritten_eq_iff, Except.ok.injEq]
          exact ⟨fun h => Utf8.encode_injective _ _ h, congrArg Utf8.encode⟩
  · rcases hnames.replaceFile ⟨_, _, hkind⟩ bytes source hsource hadmits with ⟨final, hreplace⟩
    rw [writeSource]
    simp only [hbytes, hreplace]
    exact ⟨_, rfl⟩

/-- A feed with a return before it and one without: both have one afterwards. -/
theorem writeSource_readSource_mixed :
    let host := Host.holding "a.go" (Utf8.encode "a\r\nb\n")
    host.files.kind? (FileTree.startOf host.workDir "a.go") = some .directory
      ∧ host.readBytes "a.go" = .ok (Utf8.encode "a\r\nb\n")
      ∧ (∀ place, host.files.walk host.workDir .kept "a.go" = .ok (.present place) →
        host.files.linkAt? place = none)
      ∧ host.readSource "a.go" .utf8 = .ok ("a\nb\n", .crlf)
      ∧ ∃ after, host.writeSource "a.go" "a\nb\n" LineEnding.crlf.text .utf8 = (after, .ok ())
        ∧ after.readBytes "a.go" = .ok (Utf8.encode "a\r\nb\r\n")
        ∧ after.readBytes "a.go" ≠ .ok (Utf8.encode "a\r\nb\n") := by
  intro host
  have hlink : ∀ place, host.files.walk host.workDir .kept "a.go" = .ok (.present place) →
      host.files.linkAt? place = none := by
    intro place hwalk
    have hplace : host.files.walk host.workDir .kept "a.go" = .ok (.present ["a.go"]) := rfl
    rw [hplace, Except.ok.injEq, Reached.present.injEq] at hwalk
    rw [← hwalk]
    rfl
  have hsource : host.readSource "a.go" .utf8 = .ok ("a\nb\n", .crlf) := by
    with_unfolding_all rfl
  rcases writeSource_readSource host "a.go" "a\r\nb\n" rfl rfl hlink with
    ⟨text, ending, hread, ⟨fed, hfed, hwrites⟩, hreturns⟩
  rw [hsource, Except.ok.injEq, Prod.mk.injEq] at hread
  rcases hread with ⟨rfl, rfl⟩
  have hroom : host.files.temporaryFor host.refusals host.workDir (FilePath.parse "a.go")
      = .ok ⟨["a.go.RANDOM.tmp"], "/a.go.RANDOM.tmp"⟩ :=
    Editor.eq_ok_of_toOption _ _ (by decide +kernel)
  have hbytes : Encoding.utf8.encode? (sourcePayload "a\nb\n" LineEnding.crlf.text)
      = some (Utf8.encode "a\r\nb\r\n") := by decide +kernel
  rcases hreturns _ _ hroom hbytes (Refusals.admits_none _) with ⟨after, hwrite⟩
  rcases hwrites after _ hwrite with ⟨hafter, hsame⟩
  have hcut : fed = ⟨[⟨['a'], 1, by decide, by decide⟩, ⟨['b'], 0, by decide, by decide⟩], [],
      List.not_mem_nil⟩ := Text.fed_injective hfed
  subst hcut
  exact ⟨rfl, rfl, hlink, hsource, after, hwrite, hafter, fun h => absurd (hsame.mp h) (by decide)⟩

/-- A file has some feeds with returns before them and some without, and it is not written from
    what was read of it. So it has the bytes it had, and the runs are not settled. -/
def KeepsMixed (host : Host) (path : Text) : Prop :=
  ∃ (fed : Text.Fed) (text : Text) (ending : LineEnding) (after : Host) (failure : Failure),
    host.readBytes path = .ok (Utf8.encode fed.text)
      ∧ host.readSource path .utf8 = .ok (text, ending)
      ∧ host.writeSource path text ending.text .utf8 = (after, .error failure)
      ∧ ¬ ((∀ line ∈ fed.lines, line.returns = 0) ∨ ∀ line ∈ fed.lines, line.returns = 1)
      ∧ after.readBytes path = .ok (Utf8.encode fed.text)
      ∧ after.readBytes path ≠ .ok (Utf8.encode (fed.renew Text.settled).text)

/-- The first feed has a return before it and the second one has none. The name of the file
    leaves no room for that of a temporary file, or the system refuses to move the temporary
    file, and both feeds stay as they are. -/
theorem writeSource_refused_mixed :
    KeepsMixed (Host.holding (List.replicate 243 'a') (Utf8.encode "a\r\nb\n"))
        (List.replicate 243 'a')
      ∧ KeepsMixed { Host.holding "a.go" (Utf8.encode "a\r\nb\n") with
          refusals := .forbidding fun attempt => attempt matches .move _ _ } "a.go" := by
  have hmixed : ∀ (host : Host) (path : Text),
      host.readBytes path = .ok (Utf8.encode "a\r\nb\n") →
      (host.writeSource path "a\nb\n" LineEnding.crlf.text .utf8).2.toOption = none →
      (host.writeSource path "a\nb\n" LineEnding.crlf.text .utf8).1.readBytes path
        = .ok (Utf8.encode "a\r\nb\n") → host.KeepsMixed path := by
    intro host path hread hfailed hafter
    let fed : Text.Fed := ⟨[⟨['a'], 1, by decide, by decide⟩, ⟨['b'], 0, by decide, by decide⟩],
      [], List.not_mem_nil⟩
    have hsource : host.readSource path .utf8 = .ok ("a\nb\n", .crlf) := by
      rw [readSource_of_bytes hread]
      rfl
    rcases hwrite : host.writeSource path "a\nb\n" LineEnding.crlf.text .utf8 with
      ⟨after, failure | done⟩
    · rw [hwrite] at hafter
      refine ⟨fed, _, _, after, failure, hread, hsource, hwrite, by decide, hafter, ?_⟩
      rw [hafter]
      exact fun h => absurd (Except.ok.inj h) (by decide)
    · rw [hwrite] at hfailed
      exact absurd hfailed (Option.some_ne_none done)
  refine ⟨hmixed _ _ ?_ ?_ ?_, hmixed _ _ ?_ ?_ ?_⟩
  · exact Editor.eq_ok_of_toOption _ _ (by decide +kernel)
  · decide +kernel
  · exact Editor.eq_ok_of_toOption _ _ (by decide +kernel)
  · exact Editor.eq_ok_of_toOption _ _ (by decide +kernel)
  · decide +kernel
  · exact Editor.eq_ok_of_toOption _ _ (by decide +kernel)

end Host

end QueryDesk
