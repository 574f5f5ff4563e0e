import QueryDesk.Proofs.Desk.Resaved

/-!
# A file that is loaded again after a save

Whatever was typed into an editor, its text holds only characters that a file
gives back. A carriage return and a paragraph separator are not among them: each
becomes a block break on the way in, whether it came with the file, was put in, or
met its partner at a joint of two texts, and a block break is a line feed in the
text. So the ending written for a feed is the only break in the file, it is read
as a feed again, and it shows which ending it is. A text without a feed shows
none, and then it makes no difference which one is written.

Two saves in a row differ in one thing. The first replaces a link by the file, and
what went through that link can no longer be found. The second finds no link, so
the file can be read afterwards if it could be read before.

## Main definitions

* `Stroke`: What is done to an editor between loading and saving.
* `Editor.stroke`, `Editor.strokes`: One such thing done, and several.

## Theorems

* `strokes_unbroken`: No stroke brings in a carriage return.
* `ofFile_written`: A text is read back from what it is written as.
* `replaced_link_not_loaded`: A file that cannot be loaded after it was saved.
* `saved_then_loaded`: A file that is loaded after it was saved.
-/

namespace QueryDesk

/-- What is done to an editor between loading and saving. -/
inductive Stroke
  /-- The cursor is moved, also to a position between the units of a character. -/
  | select (start : Int) (stop : Option Int)
  | goTo (line column : Int)
  /-- A text is put in the place of what is selected. -/
  | insert (text : Text)
  deriving DecidableEq, Repr

namespace Editor

/-- The editor after a stroke. -/
def stroke (editor : Editor) : Stroke → Editor
  | .select start stop => editor.select start stop
  | .goTo line column => editor.goTo line column
  | .insert text => editor.insert text

/-- The editor after some strokes, the first one first. -/
def strokes (editor : Editor) (all : List Stroke) : Editor :=
  all.foldl stroke editor

theorem stroke_unbroken (editor : Editor) (stroke : Stroke) (h : editor.buffer.Unbroken) :
    (editor.stroke stroke).buffer.Unbroken := by
  cases stroke with
  | select start stop => exact h.select start stop
  | goTo line column => exact h.select (positionOf editor.buffer line column) none
  | insert text => exact h.insert text

/-- No stroke brings in a carriage return. -/
theorem strokes_unbroken (editor : Editor) (all : List Stroke) (h : editor.buffer.Unbroken) :
    (editor.strokes all).buffer.Unbroken := by
  induction all generalizing editor with
  | nil => exact h
  | cons stroke rest ih => exact ih (editor.stroke stroke) (stroke_unbroken editor stroke h)

theorem stroke_ending (editor : Editor) (stroke : Stroke) :
    (editor.stroke stroke).ending = editor.ending := by
  cases stroke <;> rfl

theorem strokes_ending (editor : Editor) (all : List Stroke) :
    (editor.strokes all).ending = editor.ending := by
  induction all generalizing editor with
  | nil => rfl
  | cons stroke rest ih => exact (ih (editor.stroke stroke)).trans (stroke_ending editor stroke)

/-- A text that an editor can hold is read back from what it is written as. The
    ending is read back, too, if there is a feed to show it, and writing what was
    read gives the same again. -/
theorem ofFile_written (path text : Text) (ending : LineEnding) (hreturn : '\r' ∉ text)
    (hbreak : Buffer.blockBreak ∉ text) :
    (ofFile path (Utf8.encode (Text.withEnding ending.text text))).sourceText = text
      ∧ ('\n' ∈ text →
        (ofFile path (Utf8.encode (Text.withEnding ending.text text))).ending = ending)
      ∧ Text.withEnding
          (ofFile path (Utf8.encode (Text.withEnding ending.text text))).ending.text text
        = Text.withEnding ending.text text := by
  have hending : '\n' ∈ text →
      (ofFile path (Utf8.encode (Text.withEnding ending.text text))).ending = ending := by
    intro hfeed
    rw [ofFile, Utf8.decodeLossy_encode]
    exact Text.detect_withEnding ending text hreturn hfeed
  refine ⟨?_, hending, ?_⟩
  · have hself : ∀ c ∈ text, Buffer.sourceChar c = c := by
      intro c hc
      refine if_neg fun heq => hbreak ?_
      rwa [← heq]
    rw [ofFile_sourceText, shown, Utf8.decodeLossy_encode,
      Text.unpair_withEnding ending text hreturn, sourceText_ofText text hreturn]
    exact (List.map_congr_left hself).trans (List.map_id' text)
  · by_cases hfeed : '\n' ∈ text
    · rw [hending hfeed]
    · rw [Text.withEnding_of_no_feed _ text hfeed, Text.withEnding_of_no_feed _ text hfeed]

/-- A file that is saved to a path through the very link that the save replaces. The
    path is canonical afterwards, but nothing can be loaded from it. -/
theorem replaced_link_not_loaded :
    let host := hostWithLink (Utf8.encode "a\r\n")
    ∃ loaded after saved failure, empty.load host "/a.go" = (loaded, .ok "/a.go")
      ∧ (loaded.strokes []).save host "/l/l/\x00/.." = (after, saved, .ok ⟨"/l/l", some "/l/l"⟩)
      ∧ after.canonicalPath "/l/l" = .ok "/l/l" ∧ saved.sourceText = "a\n"
      ∧ ∀ other : Editor, other.load after "/l/l" = (other, .error failure) := by
  intro host
  let loaded := ofFile "/a.go" (Utf8.encode "a\r\n")
  let result := (loaded.strokes []).save host "/l/l/\x00/.."
  have hresult : result.2.2 = .ok ⟨"/l/l", some "/l/l"⟩ :=
    eq_ok_of_toOption _ _ (by decide +kernel)
  have hlost : (result.1.readBytes "/l/l").toOption = none := by decide +kernel
  cases hread : result.1.readBytes "/l/l" with
  | ok bytes =>
      rw [hread] at hlost
      exact absurd hlost (Option.some_ne_none bytes)
  | error failure =>
      refine ⟨loaded, result.1, result.2.1, failure,
        load_canonical empty host "/a.go" _ rfl rfl, by rw [← hresult],
        eq_ok_of_toOption _ _ (by decide +kernel), by decide +kernel, fun other => ?_⟩
      rw [load, Host.readSource, hread]

/-- After any strokes and a save, the file is loaded into any editor as the text that
    was saved, with the ending it was saved with if there is a line break to show
    it. Saving it again leaves its bytes as they are, whether or not this succeeds.
    The file can be read, and so be loaded, when its path was no link before. -/
theorem saved_then_loaded (blank loaded saved : Editor) (before host after : Host)
    (source announced path target : Text) (all : List Stroke) (known : Option Text)
    (hload : blank.load before source = (loaded, .ok announced))
    (hsave : (loaded.strokes all).save host path = (after, saved, .ok ⟨target, known⟩))
    (htarget : target ≠ []) (hpath : after.canonicalPath target = .ok target) :
    saved.sourceText = (loaded.strokes all).sourceText ∧ saved.ending = loaded.ending
      ∧ ((∀ place, host.files.walk host.workDir .kept target = .ok (.present place) →
          host.files.linkAt? place = none) → ∃ bytes, after.readBytes target = .ok bytes)
      ∧ ∀ bytes, after.readBytes target = .ok bytes → ∀ other : Editor,
        ∃ fresh, other.load after target = (fresh, .ok target)
          ∧ fresh.sourceText = saved.sourceText
          ∧ ('\n' ∈ saved.sourceText → fresh.ending = saved.ending)
          ∧ ∀ last again outcome, fresh.save after [] = (last, again, outcome) →
            last.readBytes target = .ok bytes
              ∧ (outcome = .ok ⟨target, none⟩ ∨ ∃ failure, outcome = .error failure) := by
  have hunbroken := strokes_unbroken loaded all
    (load_unbroken blank loaded before source announced hload)
  have hreturn : '\r' ∉ (loaded.strokes all).sourceText := hunbroken.sourceText_no_return
  rcases save_ok _ saved host after path target known htarget hpath hsave with
    ⟨hwrite, _, hending, htext⟩
  have hnormal := Host.normal_of_canonicalPath after target hpath htarget
  rcases Host.readBytes_writeSource host after target _ _ hnormal hreturn hwrite with
    ⟨honly, hreadable⟩
  refine ⟨htext, hending.trans (strokes_ending loaded all), fun hlink => ⟨_, hreadable hlink⟩,
    fun bytes hbytes other => ?_⟩
  have hwritten := honly bytes hbytes
  rw [hwritten] at hbytes ⊢
  rcases ofFile_written target _ (loaded.strokes all).ending hreturn
    (Buffer.blockBreak_not_mem_sourceText _) with ⟨hsame, hshown, hrewritten⟩
  refine ⟨_, load_canonical other after target _ hpath hbytes, hsame.trans htext.symm,
    fun hfeed => (hshown (htext ▸ hfeed)).trans hending.symm, fun last again outcome hagain => ?_⟩
  rcases save_own _ again after last target _ outcome rfl hpath hbytes hagain with
    ⟨hfailed, hkept⟩ | ⟨hgave, hrewrite⟩
  · exact ⟨hkept, Or.inr hfailed⟩
  · -- The save that came first left no link, and this one writes what is there.
    rw [hsame] at hrewrite
    rcases Host.readBytes_writeSource after last target _ _ hnormal hreturn hrewrite with
      ⟨_, hstill⟩
    rw [hrewritten] at hstill
    exact ⟨hstill (Host.writeSource_noLink host after target _ _ hnormal hwrite), Or.inl hgave⟩

/-- A return put in before the feed of a pair, and a text with every kind of break put
    in at the end. -/
theorem saved_then_loaded_breaks :
    let host := Host.holding "a.go" (Utf8.encode "a\r\nb")
    let all : List Stroke := [.select 1 none, .insert "\r", .goTo 9 9, .insert "\u2029é\r\r\n"]
    ∃ loaded after saved fresh, empty.load host "/a.go" = (loaded, .ok "/a.go")
      ∧ (loaded.strokes all).save host [] = (after, saved, .ok ⟨"/a.go", none⟩)
      ∧ after.canonicalPath "/a.go" = .ok "/a.go"
      ∧ empty.load after "/a.go" = (fresh, .ok "/a.go")
      ∧ fresh.sourceText = "a\n\nb\né\n\n" ∧ fresh.ending = .crlf := by
  intro host all
  let loaded := ofFile "/a.go" (Utf8.encode "a\r\nb")
  have hload : empty.load host "/a.go" = (loaded, .ok "/a.go") :=
    load_canonical empty host "/a.go" _ rfl rfl
  let result := (loaded.strokes all).save host []
  have hresult : result.2.2 = .ok ⟨"/a.go", none⟩ := eq_ok_of_toOption _ _ (by decide +kernel)
  have hsave : result = (result.1, result.2.1, .ok ⟨"/a.go", none⟩) := by rw [← hresult]
  have hpath : result.1.canonicalPath "/a.go" = .ok "/a.go" :=
    eq_ok_of_toOption _ _ (by decide +kernel)
  have hwalk : host.files.walk host.workDir .kept "/a.go" = .ok (.present ["a.go"]) :=
    eq_ok_of_toOption _ _ (by decide +kernel)
  have htext : result.2.1.sourceText = "a\n\nb\né\n\n" := by decide +kernel
  rcases saved_then_loaded empty loaded result.2.1 host host result.1 "/a.go" "/a.go" [] "/a.go" all
    none hload hsave (by decide) hpath with ⟨_, hending, hreadable, hagain⟩
  rcases hreadable (fun place hplace => by
    rw [hwalk] at hplace
    rw [← Reached.present.inj (Except.ok.inj hplace)]
    rfl) with ⟨bytes, hbytes⟩
  rcases hagain bytes hbytes empty with ⟨fresh, hfresh, hsame, hshown, _⟩
  refine ⟨loaded, result.1, result.2.1, fresh, hload, hsave, hpath, hfresh, hsame.trans htext, ?_⟩
  rw [hshown (by rw [htext]; decide), hending]
  decide +kernel

end Editor

end QueryDesk
