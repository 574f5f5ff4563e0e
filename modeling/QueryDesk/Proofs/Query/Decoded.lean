import QueryDesk.Proofs.Query.Measured

/-!
# Offsets in decoded text

Without the editor's text a file is decoded and its own characters are measured. With the
same text given, the file is measured instead as soon as it has as many editor characters
as the text has characters. The two counts differ by what each is blind to. A pair of
carriage return and line feed is two characters of the text and one on disk, and a broken
part is one character of the text and as many on disk as it has bytes.

So in a well-formed file the counts are the same only where there is no pair, and then
every character takes on disk what it takes in the text. In any other file the counts are
the same only by coincidence, when there are as many pairs as there are bytes of broken
parts too many. The file is measured then, and the first pair or broken part already tells
the two apart, because a replacement character takes three bytes and a byte one.

## Main definitions

* `Utf8.WellFormed`: Every part of the bytes is a character.
* `Utf8.surplus`: The bytes of broken parts beyond one for each.

## Theorems

* `length_units`: The two counts of characters compared.
* `diskWidths_eq_iff`: When the characters take on disk what they take in the text.
* `byteOffset_eq_textOffset_iff`: When all offsets are the same on both sides.
* `describe_decoded_iff`: When all descriptors are.
-/

namespace QueryDesk

namespace Utf8

/-- Every part of the bytes is a character. -/
def WellFormed (bytes : Bytes) : Prop :=
  ∀ part, .broken part ∉ segments bytes

/-- The bytes of a segment beyond one for each character that is shown for it, when it is
    no character. -/
def Segment.surplus : Segment → Nat
  | .char _ => 0
  | .broken part => part.length - 1

/-- The bytes of broken parts beyond one for each part. -/
def surplus (bytes : Bytes) : Nat :=
  Text.total ((segments bytes).map Segment.surplus)

theorem wellFormed_encodeChar_append_iff (c : Char) (rest : Bytes) :
    WellFormed (String.utf8EncodeChar c ++ rest) ↔ WellFormed rest := by
  simp only [WellFormed, segments_encodeChar_append, List.mem_cons, reduceCtorEq, false_or]

theorem decodeLossy_encodeChar_append (c : Char) (rest : Bytes) :
    decodeLossy (String.utf8EncodeChar c ++ rest) = c :: decodeLossy rest := by
  rw [decodeLossy, segments_encodeChar_append]
  rfl

theorem WellFormed.surplus_eq_zero {bytes : Bytes} (h : WellFormed bytes) :
    surplus bytes = 0 := by
  unfold surplus
  unfold WellFormed at h
  generalize segments bytes = cut at h
  induction cut with
  | nil => rfl
  | cons segment cut ih =>
      have hcut := ih fun part hpart => h part (List.mem_cons_of_mem _ hpart)
      cases segment with
      | char c => exact (Nat.zero_add _).trans hcut
      | broken part => exact absurd List.mem_cons_self (h part)

/-- Bytes that begin with no character are shown as a replacement character first. -/
theorem decodeLossy_broken {b : UInt8} {rest : Bytes}
    (h : ∀ c, ¬ String.utf8EncodeChar c <+: b :: rest) :
    ¬ WellFormed (b :: rest) ∧ ∃ later, decodeLossy (b :: rest) = replacement :: later := by
  rcases segments_broken h with ⟨run, tail, -, -, hsegments⟩
  refine ⟨fun hwell => hwell (b :: run) ?_, decodeLossy tail, ?_⟩
  · rw [hsegments]
    exact List.mem_cons_self
  · rw [decodeLossy, hsegments]
    rfl

end Utf8

namespace Position

open Utf8

/-! ## The two counts -/

theorem diskChars_nil : diskChars [] = [] := by
  rw [diskChars, segments, List.flatMap_nil]

theorem diskChars_pair (rest : Bytes) :
    diskChars (DiskUnit.pair.bytes ++ rest) = some '\r' :: some '\n' :: diskChars rest := by
  rw [← diskChars_encodeChar, ← diskChars_encodeChar]
  rfl

/-- The characters of a file are its units, with each pair counted twice. -/
theorem length_diskChars_units {bytes : Bytes} {units : List DiskUnit} (h : DiskCut bytes units) :
    (diskChars bytes).length = units.length + units.count .pair := by
  induction h with
  | nil => rw [diskChars_nil, List.count_nil, List.length_nil, List.length_nil]
  | @cons unit rest units hfits hrest ih =>
      cases unit with
      | pair =>
          rw [diskChars_pair, List.length_cons, List.length_cons, ih, List.length_cons,
            List.count_cons_self]
          omega
      | char c =>
          have hne : DiskUnit.char c ≠ .pair := by simp only [ne_eq, reduceCtorEq,
            not_false_eq_true]
          rw [DiskUnit.bytes, diskChars_encodeChar, List.length_cons, ih, List.length_cons,
            List.count_cons_of_ne hne]
          omega
      | byte b =>
          have hne : DiskUnit.byte b ≠ .pair := by simp only [ne_eq, reduceCtorEq,
            not_false_eq_true]
          have hchars : diskChars ((DiskUnit.byte b).bytes ++ rest) = none :: diskChars rest :=
            diskChars_byte hfits
          rw [hchars, List.length_cons, ih, List.length_cons, List.count_cons_of_ne hne]
          omega

/-- They are the characters that are shown, with the bytes of broken parts too many. -/
theorem length_diskChars_shown (bytes : Bytes) :
    (diskChars bytes).length = (decodeLossy bytes).length + surplus bytes := by
  have hbroken : ∀ part, .broken part ∈ segments bytes → 1 ≤ part.length :=
    fun part hpart => (length_broken hpart).1
  rw [diskChars, decodeLossy, surplus, List.length_map]
  generalize segments bytes = cut at hbroken
  induction cut with
  | nil => rfl
  | cons segment cut ih =>
      have hcut := ih fun part hpart => hbroken part (List.mem_cons_of_mem _ hpart)
      have htotal : Text.total ((segment :: cut).map Segment.surplus)
          = segment.surplus + Text.total (cut.map Segment.surplus) := rfl
      rw [List.flatMap_cons, List.length_append, hcut, htotal, List.length_cons]
      cases segment with
      | char c =>
          simp only [Segment.surplus, List.length_singleton]
          omega
      | broken part =>
          have hpos := hbroken part List.mem_cons_self
          simp only [Segment.surplus, List.length_map]
          omega

/-- The two counts of characters compared. -/
theorem length_units {bytes : Bytes} {units : List DiskUnit} (h : DiskCut bytes units) :
    units.length + units.count .pair = (decodeLossy bytes).length + surplus bytes := by
  rw [← length_diskChars_units h, length_diskChars_shown]

/-! ## The two measures -/

/-- The characters take on disk what they take in the text just when there is neither a
    broken part nor a pair. -/
theorem diskWidths_eq_iff {bytes : Bytes} {units : List DiskUnit} (h : DiskCut bytes units) :
    diskWidths bytes = (decodeLossy bytes).map Text.byteWidth
      ↔ WellFormed bytes ∧ DiskUnit.pair ∉ units := by
  rw [diskWidths_eq h]
  induction h with
  | nil =>
      refine iff_of_true ?_ ⟨?_, List.not_mem_nil⟩
      · rw [decodeLossy, segments]
        rfl
      · intro part hpart
        rw [segments] at hpart
        exact absurd hpart List.not_mem_nil
  | @cons unit rest units hfits hrest ih =>
      rw [List.map_cons]
      cases unit with
      | pair =>
          have hshown : decodeLossy (DiskUnit.pair.bytes ++ rest)
              = '\r' :: decodeLossy (0x0a :: rest) := by
            rw [← decodeLossy_encodeChar_append, encodeChar_return]
            rfl
          -- The pair takes two bytes on disk, and its return one in the text.
          refine iff_of_false ?_ fun hboth => hboth.2 List.mem_cons_self
          rw [hshown, List.map_cons]
          exact fun heq => absurd (List.cons.inj heq).1 (by decide)
      | char c =>
          rw [DiskUnit.bytes, decodeLossy_encodeChar_append, wellFormed_encodeChar_append_iff,
            List.map_cons, List.cons_eq_cons, List.mem_cons, ih]
          simp only [Text.byteWidth, true_and, reduceCtorEq, false_or]
      | byte b =>
          have hbytes : (DiskUnit.byte b).bytes ++ rest = b :: rest := rfl
          rcases decodeLossy_broken hfits with ⟨hbroken, later, hshown⟩
          rw [hbytes, hshown, List.map_cons]
          -- A replacement character stands for the byte and takes three.
          have hwidth : 1 ≠ Text.byteWidth replacement := by decide
          exact iff_of_false (fun heq => hwidth (List.cons.inj heq).1) fun hboth => hbroken hboth.1

/-- Widths that add up to the same at every place are the same. -/
theorem eq_of_total_take {xs ys : List Nat} (hlength : xs.length = ys.length)
    (h : ∀ k ≤ xs.length, Text.total (xs.take k) = Text.total (ys.take k)) : xs = ys := by
  induction xs generalizing ys with
  | nil => exact (List.eq_nil_of_length_eq_zero hlength.symm).symm
  | cons x xs ih =>
      cases ys with
      | nil => exact absurd hlength (Nat.succ_ne_zero _)
      | cons y ys =>
          have hfirst : x + 0 = y + 0 := h 1 (Nat.succ_le_succ (Nat.zero_le _))
          have hrest : ∀ k ≤ xs.length, Text.total (xs.take k) = Text.total (ys.take k) := by
            intro k hk
            have hnext : x + Text.total (xs.take k) = y + Text.total (ys.take k) :=
              h (k + 1) (Nat.succ_le_succ hk)
            omega
          rw [ih (Nat.succ.inj hlength) hrest, Nat.add_right_cancel hfirst]

theorem byteOffset_eq_total (text : Text) (p : Int) :
    byteOffset text p = Text.total ((text.map Text.byteWidth).take (index text.length p)) := by
  rw [byteOffset, Text.byteLength, Text.measure, List.map_take]

/-- All offsets are the same on both sides just when the bytes are well-formed or have not as
    many pairs as bytes of broken parts too many. -/
theorem byteOffset_eq_textOffset_iff {bytes : Bytes} {units : List DiskUnit}
    (h : DiskCut bytes units) :
    (∀ p, byteOffset (decodeLossy bytes) p
        = textOffset (some (diskWidths bytes)) (decodeLossy bytes) p)
      ↔ WellFormed bytes ∨ units.count .pair ≠ surplus bytes := by
  have hcounts := length_units h
  have hwidths : (diskWidths bytes).length = units.length := by
    rw [diskWidths_eq h, List.length_map]
  by_cases hlength : (diskWidths bytes).length = (decodeLossy bytes).length
  · -- As many units as characters: the file is measured, and the widths are compared.
    have hcount : units.count .pair = surplus bytes := by omega
    rw [or_iff_left (not_not_intro hcount)]
    have hsame : WellFormed bytes ↔ diskWidths bytes = (decodeLossy bytes).map Text.byteWidth := by
      rw [diskWidths_eq_iff h, iff_self_and]
      intro hwell
      rw [← List.count_eq_zero, hcount, hwell.surplus_eq_zero]
    simp only [hsame, textOffset, hlength, if_true, byteOffset_eq_total, widthOffset]
    constructor
    · intro hall
      refine eq_of_total_take (hlength.trans (List.length_map _).symm) fun k hk => ?_
      have hoffset := hall ((k : Int) + 1)
      rw [index_succ _ k (hlength ▸ hk)] at hoffset
      exact hoffset.symm
    · intro heq p
      rw [heq]
  · -- The decoded text is measured on both sides.
    have hcount : units.count .pair ≠ surplus bytes := by omega
    simp only [textOffset, if_neg hlength, implies_true, true_iff]
    exact Or.inr hcount

end Position

namespace Host

open Position Utf8

/-- Describing a selection in a file that can be read, without the editor's text. -/
theorem describe_decoded (host : Host) (path real : Text) (selection : Selection) (bytes : Bytes)
    (hpath : host.canonicalPath path = .ok real)
    (hbytes : host.readBytes (FilePath.parse real).text = .ok bytes) :
    host.describe path (.ok selection) none
      = .ok (descriptor real (byteOffset (decodeLossy bytes)) selection) := by
  simp only [describe, measure, hpath, hbytes]
  rfl

/-- A file that can be read is described with and without its decoded text. All selections
    have the same descriptor on both sides just when the file is well-formed or its pairs are
    not as many as the bytes of broken parts beyond one for each. -/
theorem describe_decoded_iff (host : Host) (path real : Text) (bytes : Bytes)
    (hpath : host.canonicalPath path = .ok real)
    (hbytes : host.readBytes (FilePath.parse real).text = .ok bytes) :
    ∃ units, DiskCut bytes units ∧ (∀ others, DiskCut bytes others → others = units)
      ∧ (∀ selection, ∃ untold told,
          host.describe path (.ok selection) none = .ok untold
          ∧ host.describe path (.ok selection) (some (decodeLossy bytes)) = .ok told)
      ∧ ((∀ selection, host.describe path (.ok selection) none
            = host.describe path (.ok selection) (some (decodeLossy bytes)))
          ↔ WellFormed bytes ∨ units.count .pair ≠ surplus bytes) := by
  rcases diskCut_exists bytes with ⟨units, hunits⟩
  have huntold := fun selection => describe_decoded host path real selection bytes hpath hbytes
  have htold := fun selection =>
    describe_text host path real selection bytes (decodeLossy bytes) hpath hbytes
  refine ⟨units, hunits, fun others hothers => diskCut_unique hothers hunits,
    fun selection => ⟨_, _, huntold selection, htold selection⟩, ?_⟩
  rw [← byteOffset_eq_textOffset_iff hunits]
  constructor
  · -- A cursor at the position tells the two offsets.
    intro hall p
    have hpoint := hall ⟨p, none⟩
    rw [huntold, htold, Except.ok.injEq, descriptor, descriptor, Descriptor.mk.injEq] at hpoint
    exact Int.ofNat_inj.mp hpoint.2.1
  · intro hoffsets selection
    rw [huntold, htold, funext hoffsets]

/-- One pair and one broken part of a single byte: the counts differ, and the decoded text is
    measured on both sides. -/
theorem describe_decoded_pair :
    let bytes : Bytes := [0x61, 0x0d, 0x0a, 0xff, 0x62]
    let host : Host := .ofFiles ⟨[("a.go", .file bytes false)]⟩
    host.canonicalPath "/a.go" = .ok "/a.go"
      ∧ host.readBytes (FilePath.parse "/a.go").text = .ok bytes
      ∧ ∀ selection, host.describe "/a.go" (.ok selection) none
          = host.describe "/a.go" (.ok selection) (some "a\r\n\ufffdb") := by
  intro bytes host
  rcases describe_decoded_iff host "/a.go" "/a.go" bytes rfl rfl with ⟨units, hunits, -, -, hagree⟩
  have hshown : decodeLossy bytes = "a\r\n\ufffdb" := by with_unfolding_all rfl
  have hsurplus : surplus bytes = 0 := by with_unfolding_all rfl
  have hcounts := length_units hunits
  have hwidths : (diskWidths bytes).length = units.length := by
    rw [diskWidths_eq hunits, List.length_map]
  have hlength : units.length = 4 := hwidths.symm.trans (by with_unfolding_all rfl)
  have htext : (decodeLossy bytes).length = 5 := by rw [hshown]; rfl
  rw [hshown] at hagree
  exact ⟨rfl, rfl, hagree.mpr (Or.inr (by omega))⟩

/-- One byte that is no character: the file ends after it. With the text that is shown for
    it, the end of the file is told as the offset 1, and without as the offset 3. -/
theorem replaced_byte_misleads :
    let bytes : Bytes := [0xff]
    let host : Host := .ofFiles ⟨[("a.go", .file bytes false)]⟩
    host.canonicalPath "/a.go" = .ok "/a.go"
      ∧ host.readBytes (FilePath.parse "/a.go").text = .ok bytes
      ∧ decodeLossy bytes = "\ufffd" ∧ bytes.length = 1
      ∧ host.describe "/a.go" (.ok ⟨2, none⟩) (some (decodeLossy bytes)) = .ok ⟨"/a.go", 1, none⟩
      ∧ host.describe "/a.go" (.ok ⟨2, none⟩) none = .ok ⟨"/a.go", 3, none⟩ := by
  intro bytes host
  have hshown : decodeLossy bytes = "\ufffd" := by with_unfolding_all rfl
  refine ⟨rfl, rfl, hshown, rfl, ?_, ?_⟩
  · with_unfolding_all rfl
  · with_unfolding_all rfl

end Host

end QueryDesk
