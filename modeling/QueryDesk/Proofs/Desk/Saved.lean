import QueryDesk.Proofs.Desk.Loaded
import QueryDesk.Proofs.Host.Source

/-!
# Offsets in a file that was saved

An editor never holds a carriage return: loading breaks the text into blocks, and
so does every insertion. So a file that was just saved has one character on disk
for each character of the editor, whatever its ending is, and the offsets of a
selection are those of the same characters in the file.

For this the file has to be found under the path the editor knows it by. Saving
replaces a link at the end of the path by the file. When the same link also leads
the way there, the path leads nowhere afterwards, and the editor's own text is
measured in place of the file. Then the offsets are wrong where the file has
breaks of two characters. A path that was no link is always found again.

## Main definitions

* `Edit`: A text put in the place of the characters between two counts.
* `Editor.edit`, `Editor.editAll`: One such change, and several.
* `Descriptor.Covers`: A descriptor whose offsets enclose some characters as they
  are written to a file.
* `Editor.AllCovered`: Every cursor and selection is described so.
* `Editor.Saves`: What saving to a path can come to.

## Theorems

* `editAll_unbroken`: No edit brings in a carriage return.
* `save_saves`: A save comes to one of the ends there are.
* `save_ok`: What a save that gave a file did.
* `saved_offsets_cover`: After a save the offsets enclose the characters selected,
  whenever the file can be read, and it can when the path was no link.
* `link_replaced_misleads`: A path through the link that was replaced.
-/

namespace QueryDesk

/-- A text put in the place of the characters between two counts, which may be the
    same. -/
structure Edit where
  start : Nat
  stop : Nat
  text : Text
  deriving DecidableEq, Repr

/-- The offsets of a descriptor enclose the characters between two counts, as they
    are written to a file with an ending, and there is one offset only when
    there is nothing between them. -/
structure Descriptor.Covers (position : Descriptor) (bytes : Bytes) (ending text : Text)
    (a b : Nat) : Prop where
  start : position.start = (Utf8.encode (Text.withEnding ending (text.take a))).length
  point : position.stop = none ↔ a = b
  range : ∀ offset, position.stop = some offset → ∃ n : Nat, offset = n ∧ n ≤ bytes.length
    ∧ (bytes.take n).drop position.start.toNat
      = Utf8.encode (Text.withEnding ending ((text.take b).drop a))

namespace Editor

/-- The editor with a text put in the place of some of its characters. -/
def edit (editor : Editor) (change : Edit) : Editor :=
  (editor.selectCharacters change.start change.stop).insert change.text

/-- The editor after some edits, the first one first. -/
def editAll (editor : Editor) (changes : List Edit) : Editor :=
  changes.foldl edit editor

/-- Every cursor or selection between characters of an editor is described by
    offsets that enclose these characters in the bytes of its file. -/
def AllCovered (editor : Editor) (host : Host) (bytes : Bytes) : Prop :=
  ∀ a b, a ≤ editor.sourceText.length → b ≤ editor.sourceText.length →
    ∃ position, (editor.selectCharacters a b).descriptor host = .ok position
      ∧ position.path = editor.pathText
      ∧ position.Covers bytes editor.ending.text editor.sourceText (min a b) (max a b)

/-! ## No carriage returns -/

theorem rename_buffer (editor renamed : Editor) (host : Host) (path : Text)
    (outcome : Except Failure Text) (h : editor.rename host path = (renamed, outcome)) :
    renamed.buffer = editor.buffer ∧ renamed.ending = editor.ending := by
  unfold rename at h
  split at h
  · rw [← (Prod.mk.inj h).1]
    exact ⟨rfl, rfl⟩
  · split at h
    · rw [← (Prod.mk.inj h).1]
      exact ⟨rfl, rfl⟩
    · rw [← (Prod.mk.inj h).1]
      exact ⟨rfl, rfl⟩

-- A file that was loaded is broken into blocks.
theorem load_unbroken (editor loaded : Editor) (host : Host) (path announced : Text)
    (h : editor.load host path = (loaded, .ok announced)) : loaded.buffer.Unbroken := by
  unfold load at h
  split at h
  · exact absurd h failed_ne_ok
  · next text ending _ =>
      rw [(rename_buffer _ loaded host path _ h).1]
      exact Buffer.unbroken_ofText text

theorem edit_unbroken (editor : Editor) (change : Edit) (h : editor.buffer.Unbroken) :
    (editor.edit change).buffer.Unbroken :=
  (h.select _ _).insert change.text

/-- No edit brings in a carriage return. -/
theorem editAll_unbroken (editor : Editor) (changes : List Edit) (h : editor.buffer.Unbroken) :
    (editor.editAll changes).buffer.Unbroken := by
  induction changes generalizing editor with
  | nil => exact h
  | cons change changes ih => exact ih (editor.edit change) (edit_unbroken editor change h)

theorem editAll_ending (editor : Editor) (changes : List Edit) :
    (editor.editAll changes).ending = editor.ending := by
  induction changes generalizing editor with
  | nil => rfl
  | cons change changes ih => exact ih (editor.edit change)

/-! ## Saving -/

-- An editor always takes the name that a file was written under.
theorem rename_ok (editor : Editor) (host after : Host) (path target : Text)
    (hpath : host.canonicalPath path = .ok target) (hne : target ≠ []) :
    ∃ known, after.canonicalPath target = .ok known
      ∧ editor.rename after target = ({ editor with path := some known }, .ok known) := by
  rcases Host.canonicalPath_of_isAbsolute after target
    (Host.canonicalPath_isAbsolute_of_ne_nil host path target hpath hne) with ⟨known, hknown⟩
  refine ⟨known, hknown, ?_⟩
  unfold rename
  rw [if_neg fun hempty => hne (List.isEmpty_iff.mp hempty), hknown]

/-- What saving to a path can come to. Once the file is written nothing fails any
    more. -/
inductive Saves (editor : Editor) (host : Host) (path : Text) :
    Host → Editor → Except Failure SavedFile → Prop
  /-- The path has no canonical name. -/
  | unnamed {failure : Failure}
      (hname : host.canonicalPath (path.orElse editor.pathText) = .error failure) :
      Saves editor host path host editor (.error failure)
  /-- The name is empty, and nothing is written. -/
  | nothing (hname : host.canonicalPath (path.orElse editor.pathText) = .ok []) :
      Saves editor host path host editor (.ok ⟨[], none⟩)
  /-- The text cannot be written under the name. -/
  | unwritten {target : Text} {after : Host} {failure : Failure}
      (hname : host.canonicalPath (path.orElse editor.pathText) = .ok target) (hne : target ≠ [])
      (hwrite : host.writeSource target editor.sourceText editor.ending.text .utf8
        = (after, .error failure)) :
      Saves editor host path after editor (.error failure)
  /-- The text is written under the name by which the editor knows its file. -/
  | own {target : Text} {after : Host}
      (hname : host.canonicalPath (path.orElse editor.pathText) = .ok target) (hne : target ≠ [])
      (hwrite : host.writeSource target editor.sourceText editor.ending.text .utf8
        = (after, .ok ()))
      (hknown : editor.path = some target) :
      Saves editor host path after editor.settle (.ok ⟨target, none⟩)
  /-- The text is written under another name, which the editor takes. -/
  | renamed {target known : Text} {after : Host}
      (hname : host.canonicalPath (path.orElse editor.pathText) = .ok target) (hne : target ≠ [])
      (hwrite : host.writeSource target editor.sourceText editor.ending.text .utf8
        = (after, .ok ()))
      (hother : editor.path ≠ some target) (hknown : after.canonicalPath target = .ok known) :
      Saves editor host path after { editor with path := some known }.settle
        (.ok ⟨target, some known⟩)

/-- A save comes to one of the ends there are. -/
theorem save_saves (editor saved : Editor) (host after : Host) (path : Text)
    (outcome : Except Failure SavedFile) (h : editor.save host path = (after, saved, outcome)) :
    editor.Saves host path after saved outcome := by
  unfold save at h
  split at h
  · next failure hname =>
      cases h
      exact .unnamed hname
  next target hname =>
  split at h
  · next hempty =>
      cases h
      exact .nothing (by rw [hname, List.isEmpty_iff.mp hempty])
  next hempty =>
  have hne : target ≠ [] := fun hnil => hempty (List.isEmpty_iff.mpr hnil)
  split at h
  · next written failure hwrite =>
      cases h
      exact .unwritten hname hne hwrite
  next written hwrite =>
  split at h
  · next hknown =>
      cases h
      exact .own hname hne hwrite hknown
  · next hother =>
      rcases rename_ok editor host written _ target hname hne with ⟨known, hknown, hrename⟩
      rw [hrename] at h
      cases h
      exact .renamed hname hne hwrite hother hknown

/-- What a save that gave a file did: it wrote the text, and the editor is the
    same but for the path it knows. -/
theorem save_ok (editor saved : Editor) (host after : Host) (path target : Text)
    (announced : Option Text) (htarget : target ≠ [])
    (hpath : after.canonicalPath target = .ok target)
    (h : editor.save host path = (after, saved, .ok ⟨target, announced⟩)) :
    host.writeSource target editor.sourceText editor.ending.text .utf8 = (after, .ok ())
      ∧ saved.path = some target ∧ saved.ending = editor.ending
      ∧ saved.sourceText = editor.sourceText := by
  cases save_saves editor saved host after path _ h with
  | nothing => exact absurd rfl htarget
  | own _ _ hwrite hknown => exact ⟨hwrite, hknown, rfl, rfl⟩
  | renamed _ _ hwrite _ hknown =>
      rw [hpath] at hknown
      exact ⟨hwrite, congrArg some (Except.ok.inj hknown).symm, rfl, rfl⟩

/-! ## Offsets -/

-- An editor whose file holds its text with the ending of its lines: the offsets enclose the
-- characters selected.
theorem allCovered_of_written (editor : Editor) (host : Host) (path : Text)
    (heditor : editor.path = some path) (hpath : host.canonicalPath path = .ok path)
    (hreturn : '\r' ∉ editor.sourceText)
    (hbytes : host.readBytes path
      = .ok (Utf8.encode (Text.withEnding editor.ending.text editor.sourceText))) :
    editor.AllCovered host
      (Utf8.encode (Text.withEnding editor.ending.text editor.sourceText)) := by
  intro a b ha hb
  have hcells := Text.length_cells_withEnding editor.ending editor.sourceText hreturn
  have hoffset : ∀ k, k ≤ editor.sourceText.length →
      Position.textOffset (some (Position.diskWidths (Utf8.encode
        (Text.withEnding editor.ending.text editor.sourceText)))) editor.sourceText ((k : Int) + 1)
        = (Utf8.encode (Text.withEnding editor.ending.text (editor.sourceText.take k))).length := by
    intro k hk
    rw [Position.textOffset_cells _ _ k hcells hk,
      Text.flatten_take_cells_withEnding editor.ending editor.sourceText k hreturn,
      Utf8.length_encode]
  have hmono := Text.length_encode_withEnding_mono editor.ending.text editor.sourceText
  have hwhole := hmono (max a b) editor.sourceText.length (by omega)
  rw [List.take_length] at hwhole
  -- One cell for each character, so the file is measured and not the text.
  have hposition := descriptor_selectCharacters editor host path _ heditor hpath hbytes a b ha hb
    (fun k => (Utf8.encode
      (Text.withEnding editor.ending.text (editor.sourceText.take k))).length) hoffset
    (hmono (min a b) (max a b) (by omega))
  refine ⟨_, hposition, ?_, rfl, ?_, ?_⟩
  · rw [pathText, heditor]
    rfl
  · by_cases hab : a = b
    · exact iff_of_true (if_pos hab) (by rw [hab, Nat.min_self, Nat.max_self])
    · exact iff_of_false (by simp only [if_neg hab, reduceCtorEq, not_false_eq_true]) (by omega)
  · intro offset hstop
    by_cases hab : a = b
    · simp only [if_pos hab, reduceCtorEq] at hstop
    · simp only [if_neg hab, Option.some.injEq] at hstop
      exact ⟨_, hstop.symm, hwhole,
        Text.encode_withEnding_between editor.ending.text editor.sourceText _ _ (by omega)⟩

/-- After a save the offsets of every cursor and selection enclose the characters
    selected, as they were written, if the file can be read. It can be read when
    its path was no link before. -/
theorem saved_offsets_cover (blank loaded saved : Editor) (before host after : Host)
    (source announced path target : Text) (changes : List Edit) (known : Option Text)
    (hload : blank.load before source = (loaded, .ok announced))
    (hsave : (loaded.editAll changes).save host path = (after, saved, .ok ⟨target, known⟩))
    (htarget : target ≠ []) (hpath : after.canonicalPath target = .ok target) :
    saved.path = some target ∧ saved.ending = loaded.ending
      ∧ saved.sourceText = (loaded.editAll changes).sourceText
      ∧ ((∀ place, host.files.walk host.workDir .kept target = .ok (.present place) →
          host.files.linkAt? place = none) → ∃ bytes, after.readBytes target = .ok bytes)
      ∧ ∀ bytes, after.readBytes target = .ok bytes → saved.AllCovered after bytes := by
  have hunbroken := editAll_unbroken loaded changes
    (load_unbroken blank loaded before source announced hload)
  have hreturn : '\r' ∉ (loaded.editAll changes).sourceText := hunbroken.sourceText_no_return
  rcases save_ok _ saved host after path target known htarget hpath hsave with
    ⟨hwrite, hsaved, hending, htext⟩
  have hnormal := Host.normal_of_canonicalPath after target hpath htarget
  rcases Host.readBytes_writeSource host after target _ _ hnormal hreturn hwrite with
    ⟨honly, hreadable⟩
  refine ⟨hsaved, hending.trans (editAll_ending loaded changes), htext,
    fun hlink => ⟨_, hreadable hlink⟩, fun bytes hbytes => ?_⟩
  have hwritten := honly bytes hbytes
  -- Nothing of the text changed with the save, so the file holds the editor's own text.
  rw [← hending, ← htext] at hwritten
  rw [hwritten] at hbytes ⊢
  exact allCovered_of_written saved after target hsaved hpath (by rw [htext]; exact hreturn) hbytes

theorem eq_ok_of_toOption {ε α : Type} (outcome : Except ε α) (value : α)
    (h : outcome.toOption = some value) : outcome = .ok value := by
  cases outcome with
  | error failure => exact absurd h (Option.some_ne_none value).symm
  | ok found => exact congrArg Except.ok (Option.some.inj h)

/-- A file with breaks of two characters, changed before the first break and saved
    again. -/
theorem saved_offsets_cover_inserted :
    let host := Host.holding "a.go" (Utf8.encode "a\r\nb\r\n")
    ∃ loaded after saved bytes, empty.load host "/a.go" = (loaded, .ok "/a.go")
      ∧ (loaded.editAll [⟨1, 1, "é"⟩]).save host [] = (after, saved, .ok ⟨"/a.go", none⟩)
      ∧ after.canonicalPath "/a.go" = .ok "/a.go" ∧ after.readBytes "/a.go" = .ok bytes
      ∧ saved.AllCovered after bytes := by
  intro host
  let loaded := ofFile "/a.go" (Utf8.encode "a\r\nb\r\n")
  have hload : empty.load host "/a.go" = (loaded, .ok "/a.go") :=
    load_canonical empty host "/a.go" _ rfl rfl
  let result := (loaded.editAll [⟨1, 1, "é"⟩]).save host []
  have hresult : result.2.2 = .ok ⟨"/a.go", none⟩ := eq_ok_of_toOption _ _ (by decide +kernel)
  have hsave : result = (result.1, result.2.1, .ok ⟨"/a.go", none⟩) := by rw [← hresult]
  have hpath : result.1.canonicalPath "/a.go" = .ok "/a.go" :=
    eq_ok_of_toOption _ _ (by decide +kernel)
  have hwalk : host.files.walk host.workDir .kept "/a.go" = .ok (.present ["a.go"]) :=
    eq_ok_of_toOption _ _ (by decide +kernel)
  rcases saved_offsets_cover empty loaded result.2.1 host host result.1 "/a.go" "/a.go" [] "/a.go"
    [⟨1, 1, "é"⟩] none hload hsave (by decide) hpath with ⟨_, _, _, hreadable, hall⟩
  rcases hreadable (fun place hplace => by
    rw [hwalk] at hplace
    rw [← Reached.present.inj (Except.ok.inj hplace)]
    rfl) with ⟨bytes, hbytes⟩
  exact ⟨loaded, result.1, result.2.1, bytes, hload, hsave, hpath, hbytes, hall bytes hbytes⟩

/-- A host with a file and with a link that leads to the directory it is in. -/
def hostWithLink (bytes : Bytes) : Host :=
  .ofFiles ⟨[("l", .link "."), ("a.go", .file bytes false)]⟩

/-- A file with a break of two characters, saved to a path through a link that is
    also its last name. The path is taken as it stands because a part of it is
    none. Afterwards it is canonical and leads nowhere, and the end of the text,
    which is the third byte written, is told as the offset 2. -/
theorem link_replaced_misleads :
    let host := hostWithLink (Utf8.encode "a\r\n")
    ∃ loaded after saved, empty.load host "/a.go" = (loaded, .ok "/a.go")
      ∧ (loaded.editAll []).save host "/l/l/\x00/.." = (after, saved, .ok ⟨"/l/l", some "/l/l"⟩)
      ∧ after.canonicalPath "/l/l" = .ok "/l/l" ∧ saved.sourceText = "a\n"
      ∧ (Utf8.encode (Text.withEnding saved.ending.text saved.sourceText)).length = 3
      ∧ (saved.selectCharacters 2 2).descriptor after = .ok ⟨"/l/l", 2, none⟩
      ∧ (∀ bytes, after.readBytes "/l/l" ≠ .ok bytes)
      ∧ ∀ bytes, ¬ saved.AllCovered after bytes := by
  intro host
  let loaded := ofFile "/a.go" (Utf8.encode "a\r\n")
  let result := (loaded.editAll []).save host "/l/l/\x00/.."
  have hresult : result.2.2 = .ok ⟨"/l/l", some "/l/l"⟩ :=
    eq_ok_of_toOption _ _ (by decide +kernel)
  have htext : result.2.1.sourceText = "a\n" := by decide +kernel
  have hlength : (Utf8.encode (Text.withEnding result.2.1.ending.text result.2.1.sourceText)).length
      = 3 := by decide +kernel
  have hdescribed : (result.2.1.selectCharacters 2 2).descriptor result.1 = .ok ⟨"/l/l", 2, none⟩ :=
    eq_ok_of_toOption _ _ (by decide +kernel)
  have hlost : (result.1.readBytes "/l/l").toOption = none := by decide +kernel
  refine ⟨loaded, result.1, result.2.1, load_canonical empty host "/a.go" _ rfl rfl,
    by rw [← hresult], eq_ok_of_toOption _ _ (by decide +kernel), htext, hlength, hdescribed,
    fun bytes hbytes => ?_, fun bytes hall => ?_⟩
  · rw [hbytes] at hlost
    exact absurd hlost (Option.some_ne_none bytes)
  · rcases hall 2 2 (by rw [htext]; decide) (by rw [htext]; decide) with
      ⟨position, hposition, _, hcovers⟩
    rw [hdescribed, Except.ok.injEq] at hposition
    have hstart := hcovers.start
    rw [← hposition, Nat.min_self, List.take_of_length_le (by rw [htext]; decide), hlength]
      at hstart
    exact absurd hstart (by decide)

end Editor

end QueryDesk
