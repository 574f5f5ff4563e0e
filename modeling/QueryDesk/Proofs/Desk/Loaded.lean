import QueryDesk.Proofs.Desk.Cursor
import QueryDesk.Proofs.Query.Position

/-!
# Offsets in a file as it was loaded

An offset points to a character when the bytes from there on, loaded into an
editor of their own, show the text from that character on. For the offsets of a
loaded file to do so, three views of its line breaks have to stay in step: the
reading takes a pair of carriage return and line feed as one break, the buffer
breaks what was read into blocks, and the file is measured pair by pair.

They stay in step as long as reading leaves no pair. Then a buffer replaces
single characters, and there is one cell on disk for each character shown. Two
carriage returns before a line feed are read as one such pair, which the buffer
makes one break of. Now the file has more characters than the editor shows, the
editor's own text is measured instead, and it takes fewer bytes than the file:
the offset of the end is before the end.

## Main definitions

* `Host.holding`: A host with one file.
* `Editor.shown`: The text an editor shows of some bytes.
* `Editor.ofFile`: The editor that a file was loaded into.
* `Editor.descriptor`: The descriptor of what is selected in an editor.
* `PointsTo`: An offset from which on the bytes show a given text.
* `Descriptor.PointsBetween`: A descriptor whose offsets are those of two
  characters.

## Theorems

* `load_canonical`: Loading a file by its canonical path.
* `shown_cells`: What bytes show from a cell on.
* `loaded_offsets_point_iff`: The offsets point to the characters selected, for
  every selection, just when the file has no two returns before a feed.
-/

namespace QueryDesk

/-- A host whose root holds one file, and nothing else. -/
def Host.holding (name : Text) (bytes : Bytes) : Host :=
  .ofFiles ⟨[(name, .file bytes false)]⟩

namespace Editor

/-- The text an editor shows of bytes that are loaded into it. -/
def shown (bytes : Bytes) : Text :=
  (Buffer.ofText (Text.unpair (Utf8.decodeLossy bytes))).sourceText

/-- The descriptor of what is selected in an editor. -/
def descriptor (editor : Editor) (host : Host) : Except Failure Descriptor :=
  host.describe editor.pathText (.ok editor.selection) (some editor.sourceText)

end Editor

/-- The bytes from the offset on show the given text. -/
def PointsTo (bytes : Bytes) (offset : Int) (text : Text) : Prop :=
  ∃ n : Nat, offset = n ∧ n ≤ bytes.length ∧ Editor.shown (bytes.drop n) = text

/-- The offsets of a descriptor are those of two characters of a text, the lesser
    one first, and there is one offset only when the two are the same. -/
structure Descriptor.PointsBetween (position : Descriptor) (bytes : Bytes) (text : Text)
    (a b : Nat) : Prop where
  start : PointsTo bytes position.start (text.drop (min a b))
  point : position.stop = none ↔ a = b
  stop : ∀ offset, position.stop = some offset → PointsTo bytes offset (text.drop (max a b))

namespace Editor

/-- The editor that a file with the given path and bytes was loaded into. -/
def ofFile (path : Text) (bytes : Bytes) : Editor where
  path := some path
  ending := LineEnding.detect (Utf8.decodeLossy bytes)
  buffer := .ofText (Text.unpair (Utf8.decodeLossy bytes))

theorem ofFile_sourceText (path : Text) (bytes : Bytes) :
    (ofFile path bytes).sourceText = shown bytes := rfl

/-- Loading a file by its own canonical path. -/
theorem load_canonical (editor : Editor) (host : Host) (path : Text) (bytes : Bytes)
    (hpath : host.canonicalPath path = .ok path) (hbytes : host.readBytes path = .ok bytes) :
    editor.load host path = (ofFile path bytes, .ok path) := by
  have hempty : ¬ path.isEmpty = true := fun h =>
    Host.readBytes_ne_nil host path bytes hbytes (List.isEmpty_iff.mp h)
  simp only [load, Host.readSource, hbytes, Encoding.decodeLossy, rename, if_neg hempty, hpath]
  rfl

-- What the bytes of a text without two returns before a feed show.
theorem shown_encode (raw : Text) (h : Text.contains "\r\r\n" raw = false) :
    shown (Utf8.encode raw)
      = (Text.cells raw).map fun cell => Buffer.shownChar (Text.cellChar cell) := by
  have hpair : (Text.unpair raw).hasPair = false := by rw [Text.hasPair_unpair, h]
  unfold shown Buffer.ofText Buffer.sourceText
  rw [Utf8.decodeLossy_encode, Buffer.broken_eq_map _ hpair, Text.unpair_eq_map, List.map_map,
    List.map_map]
  rfl

theorem encode_cells (raw : Text) (k : Nat) :
    Utf8.encode raw = Utf8.encode ((Text.cells raw).take k).flatten
      ++ Utf8.encode ((Text.cells raw).drop k).flatten := by
  rw [← Utf8.encode_append, ← List.flatten_append, List.take_append_drop, Text.flatten_cells]

/-- What the bytes from a cell on show is the text from that cell on. -/
theorem shown_cells (raw : Text) (k : Nat) (h : Text.contains "\r\r\n" raw = false) :
    PointsTo (Utf8.encode raw) (Text.byteLength ((Text.cells raw).take k).flatten : Nat)
      ((shown (Utf8.encode raw)).drop k) := by
  have hsplit := encode_cells raw k
  have hlength := Utf8.length_encode ((Text.cells raw).take k).flatten
  refine ⟨_, rfl, ?_, ?_⟩
  · rw [hsplit, List.length_append, hlength]
    exact Nat.le_add_right _ _
  · have hrest : Text.contains "\r\r\n" ((Text.cells raw).drop k).flatten = false := by
      refine Text.contains_double_append ((Text.cells raw).take k).flatten _ ?_
      rw [← List.flatten_append, List.take_append_drop, Text.flatten_cells, h]
    rw [shown_encode raw h, ← List.map_drop, ← Text.cells_drop raw k, ← shown_encode _ hrest,
      hsplit, ← hlength, List.drop_left]

-- Bytes that are there show something.
theorem shown_ne_nil (bytes : Bytes) (h : bytes ≠ []) : shown bytes ≠ [] := by
  have hdecode : Utf8.decodeLossy bytes ≠ [] := by
    cases bytes with
    | nil => exact absurd rfl h
    | cons lead rest =>
        rw [Utf8.decodeLossy, Utf8.segments]
        exact List.cons_ne_nil _ _
  have hread : Text.unpair (Utf8.decodeLossy bytes) ≠ [] := by
    rw [Text.unpair_eq_map]
    intro hnil
    have hflat := Text.flatten_cells (Utf8.decodeLossy bytes)
    rw [List.map_eq_nil_iff.mp hnil] at hflat
    exact hdecode hflat.symm
  exact fun hnil => Buffer.broken_ne_nil _ hread (List.map_eq_nil_iff.mp hnil)

-- A file with two returns before a feed has more characters on disk than it shows.
theorem length_shown_lt (raw : Text) (h : Text.contains "\r\r\n" raw = true) :
    (shown (Utf8.encode raw)).length < (Text.cells raw).length := by
  have hbroken := Buffer.length_broken_lt (Text.unpair raw) (by rw [Text.hasPair_unpair, h])
  have hread : (Text.unpair raw).length = (Text.cells raw).length := by
    rw [Text.unpair_eq_map, List.length_map]
  rw [shown, Utf8.decodeLossy_encode, Buffer.length_sourceText, ← hread]
  exact hbroken

-- A file with two returns before a feed takes more bytes than it shows.
theorem byteLength_shown_lt (raw : Text) (h : Text.contains "\r\r\n" raw = true) :
    Text.byteLength (shown (Utf8.encode raw)) < (Utf8.encode raw).length := by
  have hpair : raw.hasPair = true := by
    by_cases hpair : raw.hasPair = true
    · exact hpair
    · rw [Bool.not_eq_true] at hpair
      have hunpaired := Text.hasPair_unpair raw
      rw [Text.unpair_eq_self raw hpair, hpair, h] at hunpaired
      exact absurd hunpaired Bool.false_ne_true
  rw [shown, Utf8.decodeLossy_encode, Utf8.length_encode]
  exact Nat.lt_of_le_of_lt (Buffer.byteLength_source_le (Text.unpair raw))
    (Text.byteLength_unpair_lt raw hpair)

/-- Every cursor or selection between characters of an editor is described by
    offsets that point to these characters in the bytes of its file. -/
def AllPoint (editor : Editor) (host : Host) (bytes : Bytes) : Prop :=
  ∀ a b, a ≤ editor.sourceText.length → b ≤ editor.sourceText.length →
    ∃ position, (editor.selectCharacters a b).descriptor host = .ok position
      ∧ position.path = editor.pathText
      ∧ position.PointsBetween bytes editor.sourceText a b

-- The descriptor between two characters of an editor that belongs to a file that can be read,
-- when the offsets of the two are in order.
theorem descriptor_selectCharacters (editor : Editor) (host : Host) (path : Text) (bytes : Bytes)
    (heditor : editor.path = some path) (hpath : host.canonicalPath path = .ok path)
    (hbytes : host.readBytes path = .ok bytes) (a b : Nat) (ha : a ≤ editor.sourceText.length)
    (hb : b ≤ editor.sourceText.length) (offset : Nat → Nat)
    (hoffset : ∀ k, k ≤ editor.sourceText.length →
      Position.textOffset (some (Position.diskWidths bytes)) editor.sourceText ((k : Int) + 1)
        = offset k)
    (hmono : offset (min a b) ≤ offset (max a b)) :
    (editor.selectCharacters a b).descriptor host
      = .ok ⟨path, offset (min a b), if a = b then none else some (offset (max a b) : Int)⟩ := by
  have hpathText : (editor.selectCharacters a b).pathText = path := by
    change editor.path.getD [] = path
    rw [heditor]
    rfl
  have hmin : min a b ≤ editor.sourceText.length := Nat.le_trans (Nat.min_le_left a b) ha
  have hmax : max a b ≤ editor.sourceText.length := Nat.max_le.mpr ⟨ha, hb⟩
  unfold descriptor
  rw [hpathText, selectCharacters_sourceText, selectCharacters_selection editor a b ha hb,
    Host.describe_canonical host path editor.sourceText _ bytes hpath hbytes,
    Position.descriptor_ofBounds path _ a b (by rwa [hoffset _ hmin, hoffset _ hmax]),
    hoffset _ hmin, hoffset _ hmax]

-- Without two returns before a feed the offsets point to the characters selected: there is one
-- cell for each character.
theorem allPoint_ofFile (host : Host) (path raw : Text)
    (hpath : host.canonicalPath path = .ok path)
    (hbytes : host.readBytes path = .ok (Utf8.encode raw))
    (hdouble : Text.contains "\r\r\n" raw = false) :
    (ofFile path (Utf8.encode raw)).AllPoint host (Utf8.encode raw) := by
  intro a b ha hb
  have hcells : (Text.cells raw).length = (ofFile path (Utf8.encode raw)).sourceText.length := by
    rw [ofFile_sourceText, shown_encode raw hdouble, List.length_map]
  have hposition := descriptor_selectCharacters (ofFile path (Utf8.encode raw)) host path _ rfl
    hpath hbytes a b ha hb (fun k => Text.byteLength ((Text.cells raw).take k).flatten)
    (fun k hk => Position.textOffset_cells raw _ k hcells hk)
    (Text.byteLength_take_flatten_mono _ _ _ (by omega))
  refine ⟨_, hposition, rfl, shown_cells raw (min a b) hdouble, ?_, ?_⟩
  · by_cases hab : a = b
    · exact iff_of_true (if_pos hab) hab
    · exact iff_of_false (by simp only [if_neg hab, reduceCtorEq, not_false_eq_true]) hab
  · intro offset hoffset
    by_cases hab : a = b
    · simp only [if_pos hab, reduceCtorEq] at hoffset
    · simp only [if_neg hab, Option.some.injEq] at hoffset
      rw [← hoffset]
      exact shown_cells raw (max a b) hdouble

-- With two returns before a feed the offset of the end is before the end: it is the measure of
-- the text shown, and bytes are left there.
theorem not_allPoint_ofFile (host : Host) (path raw : Text)
    (hpath : host.canonicalPath path = .ok path)
    (hbytes : host.readBytes path = .ok (Utf8.encode raw))
    (hdouble : Text.contains "\r\r\n" raw = true) :
    ¬ (ofFile path (Utf8.encode raw)).AllPoint host (Utf8.encode raw) := by
  intro hall
  have hle := Nat.le_refl (ofFile path (Utf8.encode raw)).sourceText.length
  have hapart : (Text.cells raw).length ≠ (ofFile path (Utf8.encode raw)).sourceText.length :=
    Nat.ne_of_gt (length_shown_lt raw hdouble)
  have hend := descriptor_selectCharacters (ofFile path (Utf8.encode raw)) host path _ rfl
    hpath hbytes _ _ hle hle
    (fun k => Text.byteLength ((ofFile path (Utf8.encode raw)).sourceText.take k))
    (fun k hk => Position.textOffset_apart raw _ k hapart hk)
    (Text.measure_take_mono _ _ _ _ (by omega))
  rcases hall _ _ hle hle with ⟨position, hposition, _, hbetween⟩
  rw [hend, Except.ok.injEq] at hposition
  rcases hbetween.start with ⟨n, hn, _, hshown⟩
  rw [← hposition] at hn
  simp only [Nat.min_self, List.take_length, Int.ofNat_inj] at hn
  have hleft : (Utf8.encode raw).drop n ≠ [] := by
    have hlt := byteLength_shown_lt raw hdouble
    rw [Ne, List.drop_eq_nil_iff, ← hn, ofFile_sourceText]
    omega
  refine shown_ne_nil _ hleft ?_
  rw [hshown, Nat.min_self, List.drop_length]

/-- The offsets point to the characters selected, for every cursor and selection
    in a file that was loaded, just when the file has no two carriage returns
    before a line feed. -/
theorem loaded_offsets_point_iff (host : Host) (editor : Editor) (path raw : Text)
    (hpath : host.canonicalPath path = .ok path)
    (hbytes : host.readBytes path = .ok (Utf8.encode raw)) :
    ∃ loaded, editor.load host path = (loaded, .ok path) ∧ loaded.path = some path
      ∧ loaded.sourceText = shown (Utf8.encode raw)
      ∧ (loaded.AllPoint host (Utf8.encode raw) ↔ Text.contains "\r\r\n" raw = false) := by
  refine ⟨ofFile path (Utf8.encode raw), load_canonical editor host path _ hpath hbytes, rfl, rfl,
    ?_⟩
  constructor
  · intro hall
    by_cases hdouble : Text.contains "\r\r\n" raw = true
    · exact absurd hall (not_allPoint_ofFile host path raw hpath hbytes hdouble)
    · rwa [Bool.not_eq_true] at hdouble
  · exact allPoint_ofFile host path raw hpath hbytes

/-- In a file with every kind of break, but no two returns before a feed, all
    offsets point to the characters selected. -/
theorem loaded_offsets_point_mixed :
    ∃ loaded, empty.load (.holding "a.go" (Utf8.encode "a\r\nb\rc\u2028\u2029\n")) "/a.go"
        = (loaded, .ok "/a.go")
      ∧ loaded.AllPoint (.holding "a.go" (Utf8.encode "a\r\nb\rc\u2028\u2029\n"))
          (Utf8.encode "a\r\nb\rc\u2028\u2029\n") := by
  rcases loaded_offsets_point_iff (.holding "a.go" (Utf8.encode "a\r\nb\rc\u2028\u2029\n")) empty
    "/a.go" "a\r\nb\rc\u2028\u2029\n" rfl rfl with ⟨loaded, hload, _, _, hiff⟩
  exact ⟨loaded, hload, hiff.mpr rfl⟩

theorem descriptor_two_returns :
    ((ofFile "/a.go" (Utf8.encode "\r\r\na")).selectCharacters 1 1).descriptor
      (.holding "a.go" (Utf8.encode "\r\r\na")) = .ok ⟨"/a.go", 1, none⟩ := by
  with_unfolding_all rfl

/-- In a file of two returns, a feed and a letter, the cursor before the letter is
    told as the offset 1. From there on the file shows a break and the letter;
    the letter alone is shown from the offset 3 on. -/
theorem two_returns_mislead :
    let bytes := Utf8.encode "\r\r\na"
    let host := Host.holding "a.go" bytes
    let loaded := ofFile "/a.go" bytes
    host.canonicalPath "/a.go" = .ok "/a.go" ∧ host.readBytes "/a.go" = .ok bytes
      ∧ empty.load host "/a.go" = (loaded, .ok "/a.go") ∧ loaded.sourceText = "\na"
      ∧ (loaded.selectCharacters 1 1).descriptor host = .ok ⟨"/a.go", 1, none⟩
      ∧ shown (bytes.drop 1) = "\na" ∧ shown (bytes.drop 3) = "a"
      ∧ ¬ loaded.AllPoint host bytes := by
  intro bytes host loaded
  have htext : loaded.sourceText = "\na" := by
    rw [ofFile_sourceText, shown, Utf8.decodeLossy_encode]
    rfl
  have hone : shown (bytes.drop 1) = "\na" := shown_encode "\r\na" rfl
  have hthree : shown (bytes.drop 3) = "a" := shown_encode "a" rfl
  refine ⟨rfl, rfl, load_canonical empty host "/a.go" bytes rfl rfl, htext,
    descriptor_two_returns, hone, hthree, ?_⟩
  intro hall
  rcases hall 1 1 (by rw [htext]; decide) (by rw [htext]; decide) with
    ⟨position, hdescribed, _, hbetween⟩
  rw [descriptor_two_returns, Except.ok.injEq] at hdescribed
  rcases hbetween.start with ⟨n, hn, _, hpoint⟩
  rw [← hdescribed] at hn
  rw [← Int.ofNat_inj.mp hn, hone, htext] at hpoint
  exact absurd hpoint (by decide)

end Editor

end QueryDesk
