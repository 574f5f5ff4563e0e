import QueryDesk.Proofs.Desk.Resaved
import QueryDesk.Proofs.Query.Measured

/-!
# Offsets in a file that is not well-formed

An editor shows one replacement character for a broken part of a file, whatever the
number of its bytes. What is measured on disk counts each of these bytes. So the two
counts agree just when every broken part is a single byte, and only then the file is
measured. Otherwise the editor's own text is, where a replacement character takes three
bytes, and an offset is right as long as every broken part before it has three bytes too.
It is too large after any other.

A file that is read without a carriage return and without a paragraph separator shows
exactly what decoding gives, so what an offset leads to is the text decoded from there on.
An offset that is too large leads past the character: no character but the replacement
character is decoded anew from a later byte.

## Main definitions

* `Utf8.CountedAlike`: The bytes before a character are counted as they are on disk.

## Theorems

* `diskWidths_segments`: What is measured in a file without carriage returns.
* `startAt_le_byteLength`, `byteLength_eq_startAt_iff`: The text shown measured, against
  the bytes on disk.
* `sourceText_ofFile`: What a file without returns and separators shows.
* `broken_offsets`: When the offset of a position leads to the text from there on.
-/

namespace QueryDesk

namespace Utf8

/-- The bytes before a character are counted as they are on disk: the file is measured,
    because all its broken parts are single bytes, or the text is, and each broken part
    before the character takes as much as a replacement character. -/
def CountedAlike (bytes : Bytes) (k : Nat) : Prop :=
  (∀ part, .broken part ∈ segments bytes → part.length = 1)
    ∨ ∀ part, .broken part ∈ (segments bytes).take k → part.length = 3

/-- The widths that are measured for a segment. -/
def Segment.widths : Segment → List Nat
  | .char c => [Text.byteWidth c]
  | .broken part => part.map fun _ => 1

theorem bytes_le_shown {bytes : Bytes} {segment : Segment} (h : segment ∈ segments bytes) :
    segment.bytes.length ≤ Text.byteWidth segment.shown := by
  cases segment with
  | char c => exact Nat.le_refl _
  | broken part => exact (length_broken h).2

end Utf8

namespace Position

open Utf8

theorem pairedWidths_plain (chars : List (Option Char)) (h : some '\r' ∉ chars) :
    pairedWidths chars = chars.map fun char => char.elim 1 Text.byteWidth := by
  induction chars with
  | nil => rfl
  | cons char chars ih =>
      have hrest := ih fun hmem => h (List.mem_cons_of_mem _ hmem)
      rw [List.map_cons, ← hrest]
      cases char with
      | none => rfl
      | some c =>
          refine pairedWidths_char c chars fun hc => ?_
          exact absurd (hc ▸ List.mem_cons_self) h

/-- What is measured in a file without carriage returns. -/
theorem diskWidths_segments (bytes : Bytes) (h : 0x0d ∉ bytes) :
    diskWidths bytes = (segments bytes).flatMap Segment.widths := by
  have hplain : some '\r' ∉ diskChars bytes := by
    intro hmem
    rcases List.mem_flatMap.mp hmem with ⟨segment, hsegment, hin⟩
    cases segment with
    | char c =>
        rcases List.mem_singleton.mp hin with hc
        have hpart := bytes_infix hsegment
        rw [← Option.some.inj hc, Segment.bytes, encodeChar_return] at hpart
        exact h (hpart.subset List.mem_cons_self)
    | broken part =>
        rcases List.mem_map.mp hin with ⟨b, -, hnone⟩
        exact absurd hnone (by simp only [reduceCtorEq, not_false_eq_true])
  rw [diskWidths, pairedWidths_plain _ hplain, diskChars, List.map_flatMap]
  refine List.flatMap_congr fun segment _ => ?_
  cases segment with
  | char c => rfl
  | broken part =>
      rw [List.map_map]
      rfl

theorem length_diskWidths_eq_iff (bytes : Bytes) (h : 0x0d ∉ bytes) :
    (diskWidths bytes).length = (decodeLossy bytes).length
      ↔ ∀ part, .broken part ∈ segments bytes → part.length = 1 := by
  have hones : (segments bytes).length = Text.total ((segments bytes).map fun _ => 1) := by
    have hself := Text.length_flatMap (segments bytes) fun segment => [segment]
    rwa [List.flatMap_singleton'] at hself
  have hle : ∀ segment ∈ segments bytes, 1 ≤ segment.widths.length := by
    intro segment hsegment
    cases segment with
    | char c => exact Nat.le_refl 1
    | broken part =>
        rw [Segment.widths, List.length_map]
        exact (length_broken hsegment).1
  rw [decodeLossy, List.length_map, diskWidths_segments bytes h, Text.length_flatMap, hones,
    eq_comm, Text.total_eq_total_iff _ _ _ hle]
  constructor
  · intro hall part hpart
    have hwidth := hall _ hpart
    rw [Segment.widths, List.length_map] at hwidth
    exact hwidth.symm
  · intro hall segment hsegment
    cases segment with
    | char c => rfl
    | broken part =>
        rw [Segment.widths, List.length_map]
        exact (hall part hsegment).symm

/-- In a file whose broken parts are single bytes the offsets are measured on disk. -/
theorem textOffset_single (bytes : Bytes) (h : 0x0d ∉ bytes)
    (hsingle : ∀ part, .broken part ∈ segments bytes → part.length = 1) (k : Nat)
    (hk : k ≤ (decodeLossy bytes).length) :
    textOffset (some (diskWidths bytes)) (decodeLossy bytes) ((k : Int) + 1)
      = startAt bytes k := by
  have hwidths : diskWidths bytes = (segments bytes).map fun segment => segment.bytes.length := by
    rw [diskWidths_segments bytes h, List.map_eq_flatMap]
    refine List.flatMap_congr fun segment hsegment => ?_
    cases segment with
    | char c => rfl
    | broken part =>
        rcases List.length_eq_one_iff.mp (hsingle part hsegment) with ⟨b, rfl⟩
        rfl
  have hcount := (length_diskWidths_eq_iff bytes h).mpr hsingle
  simp only [textOffset, hcount, if_true]
  rw [widthOffset, hcount, index_succ _ _ hk, hwidths, ← List.map_take, ← Text.length_flatMap,
    startAt]

/-- In a file with a longer broken part the editor's text is measured. -/
theorem textOffset_longer (bytes : Bytes) (h : 0x0d ∉ bytes)
    (hlonger : ¬ ∀ part, .broken part ∈ segments bytes → part.length = 1) (k : Nat)
    (hk : k ≤ (decodeLossy bytes).length) :
    textOffset (some (diskWidths bytes)) (decodeLossy bytes) ((k : Int) + 1)
      = Text.byteLength ((decodeLossy bytes).take k) := by
  have hcount := fun heq => hlonger ((length_diskWidths_eq_iff bytes h).mp heq)
  simp only [textOffset, if_neg hcount]
  rw [byteOffset, index_succ _ _ hk]

theorem byteLength_take_decodeLossy (bytes : Bytes) (k : Nat) :
    Text.byteLength ((decodeLossy bytes).take k)
      = Text.total (((segments bytes).take k).map fun segment =>
          Text.byteWidth segment.shown) := by
  rw [decodeLossy, ← List.map_take, Text.byteLength, Text.measure, List.map_map]
  rfl

theorem bytes_le_shown_take (bytes : Bytes) (k : Nat) :
    ∀ segment ∈ (segments bytes).take k,
      segment.bytes.length ≤ Text.byteWidth segment.shown :=
  fun _ h => bytes_le_shown (List.mem_of_mem_take h)

/-- The text shown before a character takes at least the bytes before it on disk. -/
theorem startAt_le_byteLength (bytes : Bytes) (k : Nat) :
    startAt bytes k ≤ Text.byteLength ((decodeLossy bytes).take k) := by
  rw [byteLength_take_decodeLossy, startAt, Text.length_flatMap]
  exact Text.total_le_total _ _ _ (bytes_le_shown_take bytes k)

/-- It takes just as much when every broken part before the character does. -/
theorem byteLength_eq_startAt_iff (bytes : Bytes) (k : Nat) :
    Text.byteLength ((decodeLossy bytes).take k) = startAt bytes k
      ↔ ∀ part, .broken part ∈ (segments bytes).take k → part.length = 3 := by
  rw [byteLength_take_decodeLossy, startAt, Text.length_flatMap, eq_comm,
    Text.total_eq_total_iff _ _ _ (bytes_le_shown_take bytes k)]
  constructor
  · exact fun hall part hpart => hall _ hpart
  · intro hall segment hsegment
    cases segment with
    | char c => rfl
    | broken part => exact hall part hsegment

/-- The offset of a character is at least where it is on disk, and just there when what
    is before it is counted as it is on disk. -/
theorem textOffset_broken (bytes : Bytes) (h : 0x0d ∉ bytes) (k : Nat)
    (hk : k ≤ (decodeLossy bytes).length) :
    startAt bytes k ≤ textOffset (some (diskWidths bytes)) (decodeLossy bytes) ((k : Int) + 1)
      ∧ (textOffset (some (diskWidths bytes)) (decodeLossy bytes) ((k : Int) + 1)
          = startAt bytes k ↔ CountedAlike bytes k) := by
  by_cases hsingle : ∀ part, .broken part ∈ segments bytes → part.length = 1
  · rw [textOffset_single bytes h hsingle k hk]
    exact ⟨Nat.le_refl _, iff_of_true rfl (Or.inl hsingle)⟩
  · rw [textOffset_longer bytes h hsingle k hk, byteLength_eq_startAt_iff, CountedAlike,
      or_iff_right hsingle]
    exact ⟨startAt_le_byteLength bytes k, Iff.rfl⟩

end Position

namespace Utf8

/-- From the beginning of a character on the bytes show the text from there on. -/
theorem decodeLossy_drop_startAt (bytes : Bytes) (k : Nat) :
    decodeLossy (bytes.drop (startAt bytes k)) = (decodeLossy bytes).drop k := by
  rw [decodeLossy, segments_drop, List.map_drop, decodeLossy]

/-- Past the beginning of a character that is not the replacement character, no bytes show
    the text from that character on. -/
theorem offset_eq_startAt {bytes : Bytes} {k n : Nat} {c : Char}
    (hc : (decodeLossy bytes)[k]? = some c) (hplain : c ≠ replacement)
    (hle : startAt bytes k ≤ n)
    (h : decodeLossy (bytes.drop n) = (decodeLossy bytes).drop k) : n = startAt bytes k := by
  rcases List.getElem?_eq_some_iff.mp hc with ⟨hk, hget⟩
  have hshown := h
  rw [List.drop_eq_getElem_cons hk, hget, decodeLossy] at hshown
  -- The bytes begin with the character, so a segment begins there.
  cases hcut : segments (bytes.drop n) with
  | nil =>
      rw [hcut, List.map_nil] at hshown
      exact absurd hshown.symm (List.cons_ne_nil _ _)
  | cons segment later =>
      rw [hcut, List.map_cons] at hshown
      have hsegment : segment = .char c := by
        cases segment with
        | char d => exact congrArg Segment.char (List.cons.inj hshown).1
        | broken part => exact absurd (List.cons.inj hshown).1.symm hplain
      rcases segments_eq_cons hcut with ⟨rest, hrest, -, -⟩
      rcases encodeChar_begins c with ⟨lead, run, hbytes, hlead, -⟩
      rw [hsegment, Segment.bytes, hbytes, List.cons_append] at hrest
      rcases startAt_of_begins hrest hlead with ⟨j, rfl⟩
      -- As many characters are left from there on as from the first place on.
      have hlength := congrArg List.length h
      rw [decodeLossy_drop_startAt, List.length_drop, List.length_drop] at hlength
      rcases Nat.lt_or_ge k j with hlt | hge
      · omega
      · exact Nat.le_antisymm (startAt_mono bytes hge) hle

theorem mem_decodeLossy {bytes : Bytes} {c : Char} (h : c ∈ decodeLossy bytes)
    (hplain : c ≠ replacement) : String.utf8EncodeChar c <:+: bytes := by
  rcases List.mem_map.mp h with ⟨segment, hsegment, hshown⟩
  cases segment with
  | char d =>
      have hd : d = c := hshown
      exact hd ▸ bytes_infix hsegment
  | broken part => exact absurd hshown.symm hplain

end Utf8

namespace Editor

open Utf8

/-- A file without carriage returns and paragraph separators shows what decoding gives. -/
theorem sourceText_ofFile (path : Text) (bytes : Bytes) (hreturn : 0x0d ∉ bytes)
    (hbreak : ¬ String.utf8EncodeChar Buffer.blockBreak <:+: bytes) :
    (ofFile path bytes).sourceText = decodeLossy bytes := by
  have hno : '\r' ∉ decodeLossy bytes := by
    intro hmem
    have hpart := mem_decodeLossy hmem (by decide)
    rw [Position.encodeChar_return] at hpart
    exact hreturn (hpart.subset List.mem_cons_self)
  rw [ofFile_sourceText, shown, Text.unpair_eq_self _ (Text.hasPair_of_no_return _ hno),
    sourceText_ofText _ hno]
  refine (List.map_congr_left fun c hc => ?_).trans (List.map_id _)
  refine if_neg fun heq => hbreak ?_
  rw [heq] at hc
  exact mem_decodeLossy hc (by decide)

/-- In a file without carriage returns and paragraph separators that was loaded, the offset
    that is described for a position is at least where its character begins on disk. It is
    just there when the bytes before are counted as they are on disk, and then the bytes
    from there on show the text from the position on. They do so in no other case at a
    character other than the replacement character. -/
theorem broken_offsets (host : Host) (editor : Editor) (path : Text) (bytes : Bytes)
    (hpath : host.canonicalPath path = .ok path) (hbytes : host.readBytes path = .ok bytes)
    (hreturn : 0x0d ∉ bytes)
    (hbreak : ¬ String.utf8EncodeChar Buffer.blockBreak <:+: bytes) :
    ∃ loaded, editor.load host path = (loaded, .ok path)
      ∧ loaded.sourceText = decodeLossy bytes
      ∧ ∀ k ≤ loaded.sourceText.length, ∃ offset : Nat,
          host.describe path (.ok ⟨(k : Int) + 1, none⟩) (some loaded.sourceText)
            = .ok ⟨path, offset, none⟩
          ∧ startAt bytes k ≤ offset
          ∧ (offset = startAt bytes k ↔ CountedAlike bytes k)
          ∧ (CountedAlike bytes k →
              decodeLossy (bytes.drop offset) = loaded.sourceText.drop k)
          ∧ (∀ c, loaded.sourceText[k]? = some c → c ≠ replacement →
              (decodeLossy (bytes.drop offset) = loaded.sourceText.drop k
                ↔ CountedAlike bytes k)) := by
  refine ⟨ofFile path bytes, load_canonical editor host path bytes hpath hbytes,
    sourceText_ofFile path bytes hreturn hbreak, ?_⟩
  rw [sourceText_ofFile path bytes hreturn hbreak]
  intro k hk
  rcases Position.textOffset_broken bytes hreturn k hk with ⟨hle, hiff⟩
  have hleads : CountedAlike bytes k → decodeLossy (bytes.drop (Position.textOffset
      (some (Position.diskWidths bytes)) (decodeLossy bytes) ((k : Int) + 1)))
        = (decodeLossy bytes).drop k := by
    intro halike
    rw [hiff.mpr halike, decodeLossy_drop_startAt]
  refine ⟨_, Host.describe_canonical host path _ _ bytes hpath hbytes, hle, hiff, hleads, ?_⟩
  exact fun c hc hplain => ⟨fun hshown => hiff.mp (offset_eq_startAt hc hplain hle hshown), hleads⟩

/-- A byte that continues nothing counts as one character on both sides: after it the
    offsets lead where they should. -/
theorem broken_offsets_single :
    let bytes : Bytes := [0x61, 0x80, 0x62]
    let host := Host.holding "a.go" bytes
    host.canonicalPath "/a.go" = .ok "/a.go" ∧ host.readBytes "/a.go" = .ok bytes
      ∧ 0x0d ∉ bytes ∧ ¬ String.utf8EncodeChar Buffer.blockBreak <:+: bytes
      ∧ ∃ loaded, empty.load host "/a.go" = (loaded, .ok "/a.go")
        ∧ loaded.sourceText = "a\ufffdb"
        ∧ ∃ offset : Nat, host.describe "/a.go" (.ok ⟨3, none⟩) (some loaded.sourceText)
            = .ok ⟨"/a.go", offset, none⟩
          ∧ decodeLossy (bytes.drop offset) = "b" := by
  intro bytes host
  have hsegments : segments bytes = [.char 'a', .broken [0x80], .char 'b'] := by
    with_unfolding_all rfl
  have hshown : decodeLossy bytes = "a\ufffdb" := by
    rw [decodeLossy, hsegments]
    rfl
  have halike : CountedAlike bytes 2 := by
    refine Or.inl fun part hpart => ?_
    rw [hsegments] at hpart
    simp only [List.mem_cons, reduceCtorEq, Segment.broken.injEq, List.not_mem_nil, or_false,
      false_or] at hpart
    rw [hpart]
    rfl
  rcases broken_offsets host empty "/a.go" bytes rfl rfl (by decide) (by decide) with
    ⟨loaded, hload, htext, hall⟩
  rw [hshown] at htext
  rcases hall 2 (by rw [htext]; decide) with ⟨offset, hdescribe, -, -, hleads, -⟩
  refine ⟨rfl, rfl, by decide, by decide, loaded, hload, htext, offset, hdescribe, ?_⟩
  rw [hleads halike, htext]
  rfl

/-- Two bytes of a character of three, and a letter: the letter is told as the offset 3,
    where the file ends. It is at the offset 2. -/
theorem cut_character_misleads :
    let bytes : Bytes := [0xe2, 0x82, 0x61]
    let host := Host.holding "a.go" bytes
    let loaded := ofFile "/a.go" bytes
    host.canonicalPath "/a.go" = .ok "/a.go" ∧ host.readBytes "/a.go" = .ok bytes
      ∧ 0x0d ∉ bytes ∧ ¬ String.utf8EncodeChar Buffer.blockBreak <:+: bytes
      ∧ empty.load host "/a.go" = (loaded, .ok "/a.go") ∧ loaded.sourceText = "\ufffda"
      ∧ host.describe "/a.go" (.ok ⟨2, none⟩) (some loaded.sourceText) = .ok ⟨"/a.go", 3, none⟩
      ∧ decodeLossy (bytes.drop 3) = [] ∧ decodeLossy (bytes.drop 2) = "a"
      ∧ loaded.sourceText.drop 1 = "a" := by
  intro bytes host loaded
  have htext : loaded.sourceText = "\ufffda" := by with_unfolding_all rfl
  have hdescribe : host.describe "/a.go" (.ok ⟨2, none⟩) (some loaded.sourceText)
      = .ok ⟨"/a.go", 3, none⟩ := by with_unfolding_all rfl
  have hletter : decodeLossy (bytes.drop 2) = "a" := by with_unfolding_all rfl
  exact ⟨rfl, rfl, by decide, by decide, load_canonical empty host "/a.go" bytes rfl rfl, htext,
    hdescribe, by with_unfolding_all rfl, hletter, by rw [htext]; rfl⟩

end Editor

end QueryDesk
