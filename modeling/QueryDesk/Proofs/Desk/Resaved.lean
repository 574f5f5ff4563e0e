import Mathlib.Data.List.Basic
import QueryDesk.Proofs.Desk.Target

/-!
# A file that is saved as it was loaded

A file with one ending for all its lines is read as text with line feeds, broken
into blocks, put together again and written with the same ending. The feeds come
back as they were, and so does every other character, with one exception. Blocks
end in the paragraph separator, and one that stood in the file ends a block too.
It is given back as a line break like all others, and a save writes the ending of
the lines in its place.

So the bytes stay what they were just when the file holds no paragraph separator.
The line separator next to it, and the space that keeps words together, are
characters of a line and are kept.

## Main definitions

* `Editor.resaved`: What a save makes of a text that was loaded.

## Theorems

* `withEnding_shown`: What is written of a text of one ending that was shown.
* `resaved_eq_iff`: A text is kept just when it has no paragraph separator.
* `resaved_bytes`: The bytes of a file after it was loaded and saved.
* `separator_not_kept`: A file of one line that becomes two.
-/

namespace QueryDesk

namespace Editor

/-- What a save makes of a text that was loaded and not changed: a paragraph
    separator becomes the ending of the lines. -/
def resaved (raw : Text) : Text :=
  raw.flatMap fun c => if c = Buffer.blockBreak then (LineEnding.detect raw).text else [c]

-- What is shown of a text without carriage returns: a paragraph separator is a line break.
theorem sourceText_ofText (t : Text) (h : '\r' ∉ t) :
    (Buffer.ofText t).sourceText = t.map Buffer.sourceChar := by
  change (Buffer.broken t).map Buffer.sourceChar = _
  rw [Buffer.broken_eq_map t (Text.hasPair_of_no_return t h), List.map_map]
  refine List.map_congr_left fun c hc => ?_
  have hreturn : c ≠ '\r' := fun heq => h (heq ▸ hc)
  change Buffer.sourceChar (Buffer.breakChar c) = _
  unfold Buffer.breakChar
  by_cases hfeed : c = '\n'
  · rw [if_pos (Or.inr hfeed), hfeed]
    decide
  · rw [if_neg (by rw [not_or]; exact ⟨hreturn, hfeed⟩)]

theorem blockBreak_not_mem_ending (ending : LineEnding) : Buffer.blockBreak ∉ ending.text := by
  cases ending <;> decide

-- No ending holds a paragraph separator, so writing an ending for each leaves none.
theorem flatMap_ending (ending : LineEnding) :
    (ending.text.flatMap fun c => if c = Buffer.blockBreak then ending.text else [c])
      = ending.text := by
  cases ending <;> decide

/-- A text of one ending that is loaded and written again with the ending it
    shows. -/
theorem withEnding_shown (raw : Text) (h : Text.OneEnding raw) :
    Text.withEnding (LineEnding.detect raw).text (shown (Utf8.encode raw)) = resaved raw := by
  rcases Text.withEnding_unpair raw h with ⟨hreturn, hraw⟩
  have hresaved : resaved raw
      = (Text.withEnding (LineEnding.detect raw).text (Text.unpair raw)).flatMap fun c =>
        if c = Buffer.blockBreak then (LineEnding.detect raw).text else [c] := by
    rw [hraw, resaved]
  rw [hresaved, shown, Utf8.decodeLossy_encode, sourceText_ofText _ hreturn]
  -- Both sides are maps over the text that was read, so they are compared character by character.
  rw [Text.withEnding, Text.withEnding, List.flatMap_map, List.flatMap_assoc]
  refine List.flatMap_congr fun c _ => ?_
  unfold Buffer.sourceChar
  by_cases hbreak : c = Buffer.blockBreak
  · have hfeed : ¬ c = '\n' := by
      rw [hbreak]
      decide
    rw [if_pos hbreak, if_pos rfl, if_neg hfeed, List.flatMap_singleton, if_pos hbreak]
  · rw [if_neg hbreak]
    by_cases hfeed : c = '\n'
    · rw [if_pos hfeed, flatMap_ending]
    · rw [if_neg hfeed, List.flatMap_singleton, if_neg hbreak]

/-- A text is kept just when it has no paragraph separator: none is left after a
    save. -/
theorem resaved_eq_iff (raw : Text) : resaved raw = raw ↔ Buffer.blockBreak ∉ raw := by
  constructor
  · intro heq hmem
    rw [← heq] at hmem
    rcases List.mem_flatMap.mp hmem with ⟨c, _, hc⟩
    by_cases hbreak : c = Buffer.blockBreak
    · rw [if_pos hbreak] at hc
      exact blockBreak_not_mem_ending _ hc
    · rw [if_neg hbreak] at hc
      exact hbreak (List.mem_singleton.mp hc).symm
  · intro hnone
    have hself : ∀ c ∈ raw,
        (if c = Buffer.blockBreak then (LineEnding.detect raw).text else [c]) = [c] := by
      intro c hc
      refine if_neg fun heq => hnone ?_
      rwa [← heq]
    rw [resaved, List.flatMap_congr hself, List.flatMap_singleton']

-- A path that stands for itself and has no blanks around it leads to a file through no link.
theorem noLink_of_canonicalPath (host : Host) (hsound : host.Sound) (path : Text) (bytes : Bytes)
    (hpath : host.canonicalPath path = .ok path) (hbytes : host.readBytes path = .ok bytes)
    (htrim : Text.trim path = path) (hnormal : Path.Normal path) (place : Place)
    (h : host.files.walk host.workDir .kept path = .ok (.present place)) :
    host.files.linkAt? place = none := by
  rw [Host.readBytes_eq_ok_iff] at hbytes
  rcases FileTree.find_of_readBytes host.workDir path bytes hbytes with ⟨goal, executable, hfind⟩
  rcases (FileTree.find_eq_ok_iff host.workDir path goal _).mp hfind with ⟨hwalk, hentry⟩
  have hdirect := (Host.realPath_of_walk hsound path goal hwalk).2
  have hhome : ¬ (FilePath.parse path).NamesHome := by
    rintro ⟨hzero, _⟩
    have hslashes := Path.leadingSlashes_of_isAbsolute path hnormal.isAbsolute
    have hparse : (FilePath.parse path).slashes = Path.leadingSlashes path := rfl
    omega
  have hname := Host.canonicalPath_of_walk hsound path goal hwalk htrim hhome
  rw [hpath, Except.ok.injEq] at hname
  have hkind : host.files.kind? goal = some (.file bytes executable) := by
    rw [FileTree.kind?, hentry]
    rfl
  rw [hname] at h hwalk
  have hadmitted :=
    ((FileTree.walk_absolute_iff host.workDir .followed _ _ hdirect.normal.isAbsolute).mp hwalk).1
  rw [hdirect.walk_kept host.workDir bytes executable hkind hadmitted, Except.ok.injEq,
    Reached.present.injEq] at h
  rw [← h, FileTree.linkAt?_eq_none_iff, hkind]
  simp only [ne_eq, Option.some.injEq, reduceCtorEq, not_false_eq_true, implies_true]

/-- The bytes of a file of one ending after it was loaded and saved. A save that
    fails leaves them. A save that gives the file writes each paragraph separator
    as the ending of the lines, so the bytes are kept just when there is none. The
    file can be read again when its path has no blanks around it. -/
theorem resaved_bytes (host after : Host) (editor loaded saved : Editor) (path raw : Text)
    (announced : Except Failure Text) (outcome : Except Failure SavedFile)
    (hpath : host.canonicalPath path = .ok path)
    (hbytes : host.readBytes path = .ok (Utf8.encode raw)) (hraw : Text.OneEnding raw)
    (hload : editor.load host path = (loaded, announced))
    (hsave : loaded.save host [] = (after, saved, outcome)) :
    announced = .ok path
      ∧ ((∃ failure, outcome = .error failure)
          ∧ after.readBytes path = .ok (Utf8.encode raw)
        ∨ outcome = .ok ⟨path, none⟩
          ∧ (∀ bytes, after.readBytes path = .ok bytes →
            bytes = Utf8.encode (resaved raw)
              ∧ (bytes = Utf8.encode raw ↔ Buffer.blockBreak ∉ raw))
          ∧ (host.Sound → Text.trim path = path → ∃ bytes, after.readBytes path = .ok bytes)) := by
  have hne : path ≠ [] := Host.readBytes_ne_nil host path _ hbytes
  have hnormal := Host.normal_of_canonicalPath host path hpath hne
  rw [load_canonical editor host path _ hpath hbytes, Prod.mk.injEq] at hload
  rcases hload with ⟨rfl, hannounced⟩
  refine ⟨hannounced.symm, ?_⟩
  have hreturn : '\r' ∉ (ofFile path (Utf8.encode raw)).sourceText :=
    (Buffer.unbroken_ofText _).sourceText_no_return
  have hpayload : Text.withEnding (ofFile path (Utf8.encode raw)).ending.text
      (ofFile path (Utf8.encode raw)).sourceText = resaved raw := by
    have hending : (ofFile path (Utf8.encode raw)).ending = LineEnding.detect raw := by
      rw [ofFile, Utf8.decodeLossy_encode]
    rw [hending, ofFile_sourceText, withEnding_shown raw hraw]
  rcases save_own _ saved host after path _ outcome rfl hpath hbytes hsave with
    hfailed | ⟨hgave, hwrite⟩
  · exact Or.inl hfailed
  rcases Host.readBytes_writeSource host after path _ _ hnormal hreturn hwrite with
    ⟨honly, hreadable⟩
  rw [hpayload] at honly hreadable
  refine Or.inr ⟨hgave, fun bytes hread => ?_, fun hsound htrim => ⟨_, hreadable ?_⟩⟩
  · have hvalue := honly bytes hread
    refine ⟨hvalue, ?_⟩
    rw [hvalue, ← resaved_eq_iff]
    exact ⟨Utf8.encode_injective _ _, fun heq => by rw [heq]⟩
  · exact noLink_of_canonicalPath host hsound path _ hpath hbytes htrim hnormal

/-- A file of pairs with a space that keeps words together and a line separator is
    kept. -/
theorem resaved_bytes_pairs :
    let raw : Text := "a\u00a0b\r\nc\u2028d\r\n"
    let host := Host.holding "a.go" (Utf8.encode raw)
    ∃ loaded after saved, empty.load host "/a.go" = (loaded, .ok "/a.go")
      ∧ loaded.save host [] = (after, saved, .ok ⟨"/a.go", none⟩)
      ∧ after.readBytes "/a.go" = .ok (Utf8.encode raw) := by
  intro raw host
  let loaded := ofFile "/a.go" (Utf8.encode raw)
  have hload : empty.load host "/a.go" = (loaded, .ok "/a.go") :=
    load_canonical empty host "/a.go" _ rfl rfl
  let result := loaded.save host []
  have hresult : result.2.2 = .ok ⟨"/a.go", none⟩ := eq_ok_of_toOption _ _ (by decide +kernel)
  have hsave : result = (result.1, result.2.1, .ok ⟨"/a.go", none⟩) := by rw [← hresult]
  have hsound : host.Sound :=
    ⟨FileTree.direct_root _, rfl, Entry.noNul_directory _ fun entry hentry => by
      rw [List.mem_singleton.mp hentry]
      exact Entry.noNul_file _ _⟩
  rcases resaved_bytes host result.1 empty loaded result.2.1 "/a.go" raw _ _ rfl rfl
    ⟨by decide, Or.inl (by decide)⟩ hload hsave with
    ⟨_, ⟨⟨failure, hfailed⟩, _⟩ | ⟨_, hvalue, hreadable⟩⟩
  · exact absurd hfailed (by simp only [reduceCtorEq, not_false_eq_true])
  · rcases hreadable hsound (by decide) with ⟨bytes, hread⟩
    refine ⟨loaded, result.1, result.2.1, hload, hsave, ?_⟩
    rw [hread, (hvalue bytes hread).2.mpr (by decide)]

/-- A file of one line with a paragraph separator in it. After it is loaded and
    saved it has two lines. -/
theorem separator_not_kept :
    let raw : Text := "a\u2029\n"
    let host := Host.holding "a.go" (Utf8.encode raw)
    ∃ loaded after saved, host.canonicalPath "/a.go" = .ok "/a.go"
      ∧ host.readBytes "/a.go" = .ok (Utf8.encode raw) ∧ Text.OneEnding raw
      ∧ empty.load host "/a.go" = (loaded, .ok "/a.go")
      ∧ loaded.save host [] = (after, saved, .ok ⟨"/a.go", none⟩)
      ∧ after.readBytes "/a.go" = .ok (Utf8.encode "a\n\n")
      ∧ Utf8.encode "a\n\n" ≠ Utf8.encode raw := by
  intro raw host
  let loaded := ofFile "/a.go" (Utf8.encode raw)
  let result := loaded.save host []
  have hresult : result.2.2 = .ok ⟨"/a.go", none⟩ := eq_ok_of_toOption _ _ (by decide +kernel)
  exact ⟨loaded, result.1, result.2.1, rfl, rfl, ⟨by decide, Or.inr (by decide)⟩,
    load_canonical empty host "/a.go" _ rfl rfl, by rw [← hresult],
    eq_ok_of_toOption _ _ (by decide +kernel), by decide⟩

end Editor

end QueryDesk
