import QueryDesk.Proofs.Query.Position
import QueryDesk.Proofs.Text.Segment

/-!
# What is measured in a file

An editor character is one of three things on disk: a carriage return with the line
feed after it, a character, or a byte that belongs to no character. Any bytes are cut
into such units in exactly one way, once a carriage return is not taken alone before a
line feed and no byte is taken alone where a character begins. The cut says nothing of
how bytes are decoded, and the measured widths are the lengths of its units.

So an editor that has as many characters as a file has units gets the ends of the units
as its offsets. They split no character and no pair, wherever in the file one occurs,
because only the first byte of a character begins one.

## Main definitions

* `Position.DiskUnit`: What stands for one editor character on disk.
* `Position.DiskUnit.Fits`: A unit is taken right before some bytes.
* `Position.DiskCut`: The cut of bytes into units.
* `Position.startOf`: The bytes before a unit.
* `Position.Measures`: Offsets are the ends of the units of a file.

## Theorems

* `diskCut_exists`, `diskCut_unique`: There is exactly one cut.
* `diskWidths_eq`: The widths measured are those of the units.
* `diskCut_whole`: No unit ends inside a character or a pair.
* `measures_startOf`: Offsets by the bytes of the units are their ends.
* `describe_measured`: The descriptors in a file with as many units as the editor has
  characters.
-/

namespace QueryDesk

namespace Position

/-- What stands for one editor character on disk. -/
inductive DiskUnit
  | pair
  | char (c : Char)
  | byte (b : UInt8)
  deriving DecidableEq, Repr

namespace DiskUnit

def bytes : DiskUnit → Bytes
  | pair => [0x0d, 0x0a]
  | char c => String.utf8EncodeChar c
  | byte b => [b]

/-- A unit is taken right before some bytes: a carriage return is no unit before a line
    feed, and a byte is none where a character begins. -/
def Fits : DiskUnit → Bytes → Prop
  | pair, _ => True
  | char c, rest => c = '\r' → ¬ [0x0a] <+: rest
  | byte b, rest => ∀ c, ¬ String.utf8EncodeChar c <+: b :: rest

end DiskUnit

/-- The cut of bytes into units. -/
inductive DiskCut : Bytes → List DiskUnit → Prop
  | nil : DiskCut [] []
  | cons (unit : DiskUnit) {rest : Bytes} {units : List DiskUnit} (hfits : unit.Fits rest)
      (hrest : DiskCut rest units) : DiskCut (unit.bytes ++ rest) (unit :: units)

/-- The bytes before a unit. -/
def startOf (units : List DiskUnit) (k : Nat) : Nat :=
  ((units.take k).flatMap DiskUnit.bytes).length

/-! ## The one cut -/

theorem encodeChar_append_inj {c d : Char} {s t : Bytes}
    (h : String.utf8EncodeChar c ++ s = String.utf8EncodeChar d ++ t) : c = d ∧ s = t := by
  have hsegments := Utf8.segments_encodeChar_append c s
  rw [h, Utf8.segments_encodeChar_append d t] at hsegments
  have hchar : d = c := Utf8.Segment.char.inj (List.cons.inj hsegments).1
  subst hchar
  exact ⟨rfl, List.append_cancel_left h⟩

theorem encodeChar_return : String.utf8EncodeChar '\r' = [0x0d] := by decide

/-- Where a character begins, it is the unit, or the pair that begins with it. -/
theorem unit_of_char {unit : DiskUnit} {rest : Bytes} (hfits : unit.Fits rest) {c : Char}
    (h : String.utf8EncodeChar c <+: unit.bytes ++ rest) :
    unit = .char c ∨ unit = .pair ∧ c = '\r' := by
  rcases h with ⟨tail, htail⟩
  cases unit with
  | pair =>
      have hreturn : DiskUnit.pair.bytes ++ rest = String.utf8EncodeChar '\r' ++ 0x0a :: rest := by
        rw [encodeChar_return]
        rfl
      exact Or.inr ⟨rfl, (encodeChar_append_inj (htail.trans hreturn)).1⟩
  | char d => exact Or.inl (congrArg DiskUnit.char (encodeChar_append_inj htail).1.symm)
  | byte b => exact absurd ⟨tail, htail⟩ (hfits c)

/-- Where a pair begins, it is the unit. -/
theorem unit_of_pair {unit : DiskUnit} {rest : Bytes} (hfits : unit.Fits rest)
    (h : DiskUnit.pair.bytes <+: unit.bytes ++ rest) : unit = .pair := by
  rcases h with ⟨tail, htail⟩
  have hreturn : String.utf8EncodeChar '\r' <+: unit.bytes ++ rest :=
    ⟨0x0a :: tail, by rw [encodeChar_return, ← htail]; rfl⟩
  rcases unit_of_char hfits hreturn with rfl | ⟨hpair, -⟩
  · have hchar : (DiskUnit.char '\r').bytes = [0x0d] := encodeChar_return
    rw [hchar] at htail
    exact absurd ⟨tail, (List.cons.inj htail).2⟩ (hfits rfl)
  · exact hpair

theorem unit_unique {unit other : DiskUnit} {rest later : Bytes} (hfits : unit.Fits rest)
    (hother : other.Fits later) (h : unit.bytes ++ rest = other.bytes ++ later) :
    unit = other := by
  cases unit with
  | pair => exact (unit_of_pair hother ⟨rest, h⟩).symm
  | char c =>
      rcases unit_of_char hother ⟨rest, h⟩ with rfl | ⟨rfl, -⟩
      · rfl
      · exact unit_of_pair hfits ⟨later, h.symm⟩
  | byte b =>
      cases other with
      | pair => exact unit_of_pair hfits ⟨later, h.symm⟩
      | char c => exact absurd ⟨later, h.symm⟩ (hfits c)
      | byte b' => exact congrArg DiskUnit.byte (List.cons.inj h).1

theorem diskCut_cons {bytes : Bytes} {unit : DiskUnit} {units : List DiskUnit}
    (h : DiskCut bytes (unit :: units)) :
    ∃ rest, bytes = unit.bytes ++ rest ∧ unit.Fits rest ∧ DiskCut rest units := by
  cases h with
  | cons _ hfits hrest => exact ⟨_, rfl, hfits, hrest⟩

theorem unit_length_pos (unit : DiskUnit) : 0 < unit.bytes.length := by
  cases unit with
  | pair => exact Nat.succ_pos _
  | char c => exact Text.byteWidth_pos c
  | byte b => exact Nat.succ_pos _

theorem diskCut_nil {units : List DiskUnit} (h : DiskCut [] units) : units = [] := by
  cases units with
  | nil => rfl
  | cons unit units =>
      rcases diskCut_cons h with ⟨rest, hbytes, -⟩
      have hpos := unit_length_pos unit
      rw [(List.append_eq_nil_iff.mp hbytes.symm).1, List.length_nil] at hpos
      exact absurd hpos (Nat.lt_irrefl 0)

/-- Bytes are cut into units in one way only. -/
theorem diskCut_unique {bytes : Bytes} {units others : List DiskUnit} (h : DiskCut bytes units)
    (hothers : DiskCut bytes others) : units = others := by
  induction h generalizing others with
  | nil => exact (diskCut_nil hothers).symm
  | @cons unit rest units hfits hrest ih =>
      cases others with
      | nil =>
          generalize hbytes : unit.bytes ++ rest = bytes at hothers
          cases hothers
          exact absurd (List.append_eq_nil_iff.mp hbytes).1
            (List.ne_nil_of_length_pos (unit_length_pos unit))
      | cons other others =>
          rcases diskCut_cons hothers with ⟨later, hbytes, hother, hlater⟩
          have hunit := unit_unique hfits hother hbytes
          subst hunit
          rw [ih (List.append_cancel_left hbytes ▸ hlater)]

/-- All bytes are cut into units. -/
theorem diskCut_exists (bytes : Bytes) : ∃ units, DiskCut bytes units := by
  induction hlength : bytes.length using Nat.strongRecOn generalizing bytes with
  | ind length ih =>
      -- After a first unit that is taken there, the rest is shorter.
      have hunit : ∀ (unit : DiskUnit) (rest : Bytes), bytes = unit.bytes ++ rest →
          unit.Fits rest → ∃ units, DiskCut bytes units := by
        rintro unit rest rfl hfits
        have hpos := unit_length_pos unit
        rw [List.length_append] at hlength
        rcases ih rest.length (by omega) rest rfl with ⟨units, hunits⟩
        exact ⟨unit :: units, .cons unit hfits hunits⟩
      cases bytes with
      | nil => exact ⟨[], .nil⟩
      | cons b rest =>
          by_cases hchar : ∃ c, String.utf8EncodeChar c <+: b :: rest
          · rcases hchar with ⟨c, tail, htail⟩
            by_cases hpair : c = '\r' ∧ [0x0a] <+: tail
            · rcases hpair with ⟨rfl, after, hafter⟩
              refine hunit .pair after ?_ trivial
              rw [← htail, encodeChar_return, ← hafter]
              rfl
            · exact hunit (.char c) tail htail.symm fun hreturn hfeed => hpair ⟨hreturn, hfeed⟩
          · exact hunit (.byte b) rest rfl fun c hc => hchar ⟨c, hc⟩

theorem flatMap_units {bytes : Bytes} {units : List DiskUnit} (h : DiskCut bytes units) :
    units.flatMap DiskUnit.bytes = bytes := by
  induction h with
  | nil => rfl
  | cons unit hfits hrest ih => rw [List.flatMap_cons, ih]

/-! ## What is measured -/

theorem diskChars_encodeChar (c : Char) (rest : Bytes) :
    diskChars (String.utf8EncodeChar c ++ rest) = some c :: diskChars rest := by
  unfold diskChars
  rw [Utf8.segments_encodeChar_append, List.flatMap_cons]
  rfl

/-- Continuing bytes count one by one. -/
theorem diskChars_continues {run : Bytes} (h : ∀ b ∈ run, Utf8.Continues b) (rest : Bytes) :
    diskChars (run ++ rest) = run.map (fun _ => none) ++ diskChars rest := by
  induction run with
  | nil => rfl
  | cons b run ih =>
      rw [List.map_cons, List.cons_append, List.cons_append,
        ← ih fun b' hb' => h b' (List.mem_cons_of_mem _ hb')]
      have hsegment := Utf8.segmentAt_continues (h b List.mem_cons_self) (run ++ rest)
      rw [diskChars, Utf8.segments, hsegment, List.flatMap_cons]
      rfl

/-- A byte where no character begins counts for itself. -/
theorem diskChars_byte {b : UInt8} {rest : Bytes}
    (h : ∀ c, ¬ String.utf8EncodeChar c <+: b :: rest) :
    diskChars (b :: rest) = none :: diskChars rest := by
  rcases Utf8.segments_broken h with ⟨run, tail, rfl, hrun, hsegments⟩
  rw [diskChars_continues hrun, diskChars, hsegments, List.flatMap_cons]
  rfl

/-- What is measured as a character first is one that the bytes begin with. -/
theorem prefix_of_diskChars {bytes : Bytes} {c : Char} {later : List (Option Char)}
    (h : diskChars bytes = some c :: later) : String.utf8EncodeChar c <+: bytes := by
  rcases diskCut_exists bytes with ⟨units, hunits⟩
  cases hunits with
  | nil => exact absurd h (by simp only [diskChars, Utf8.segments, List.flatMap_nil,
      reduceCtorEq, not_false_eq_true])
  | @cons unit rest units hfits hrest =>
      cases unit with
      | pair =>
          have hreturn := diskChars_encodeChar '\r' (0x0a :: rest)
          rw [encodeChar_return] at hreturn
          rw [Option.some.inj (List.cons.inj (hreturn.symm.trans h)).1.symm, encodeChar_return]
          exact ⟨0x0a :: rest, rfl⟩
      | char d =>
          rw [DiskUnit.bytes, diskChars_encodeChar] at h
          rw [← Option.some.inj (List.cons.inj h).1]
          exact ⟨rest, rfl⟩
      | byte b =>
          have hnone := diskChars_byte hfits
          exact absurd (hnone.symm.trans h) (by
            simp only [List.cons.injEq, reduceCtorEq, false_and, not_false_eq_true])

theorem pairedWidths_char (c : Char) (chars : List (Option Char))
    (h : c = '\r' → ∀ later, chars ≠ some '\n' :: later) :
    pairedWidths (some c :: chars) = Text.byteWidth c :: pairedWidths chars := by
  rw [pairedWidths.eq_def]
  split
  · rename_i heq
    exact absurd heq (List.cons_ne_nil _ _)
  · rename_i rest heq
    rcases List.cons.inj heq with ⟨hc, hchars⟩
    exact absurd hchars (h (Option.some.inj hc) rest)
  · rename_i heq
    rcases List.cons.inj heq with ⟨hc, rfl⟩
    rw [Option.some.inj hc]
  · rename_i heq
    exact absurd (List.cons.inj heq).1 (by simp only [reduceCtorEq, not_false_eq_true])

/-- The widths measured are the lengths of the units. -/
theorem diskWidths_eq {bytes : Bytes} {units : List DiskUnit} (h : DiskCut bytes units) :
    diskWidths bytes = units.map fun unit => unit.bytes.length := by
  unfold diskWidths
  induction h with
  | nil => rw [diskChars, Utf8.segments, List.flatMap_nil, pairedWidths, List.map_nil]
  | @cons unit rest units hfits hrest ih =>
      rw [List.map_cons, ← ih]
      cases unit with
      | pair =>
          have hchars : diskChars (DiskUnit.pair.bytes ++ rest)
              = some '\r' :: some '\n' :: diskChars rest := by
            rw [← diskChars_encodeChar, ← diskChars_encodeChar]
            rfl
          rw [hchars, pairedWidths]
          rfl
      | char c =>
          rw [DiskUnit.bytes, diskChars_encodeChar, pairedWidths_char]
          · rfl
          · exact fun hc later hlater => hfits hc (prefix_of_diskChars hlater)
      | byte b => exact (congrArg pairedWidths (diskChars_byte hfits)).trans rfl

/-! ## The ends of the units -/

/-- The bytes before a unit are those of the units before it. -/
theorem startOf_eq_total (units : List DiskUnit) (k : Nat) :
    startOf units k = Text.total ((units.map fun unit => unit.bytes.length).take k) := by
  rw [startOf, Text.length_flatMap, List.map_take]

theorem startOf_succ (units : List DiskUnit) (k : Nat) (h : k < units.length) :
    startOf units (k + 1) = startOf units k + units[k].bytes.length := by
  unfold startOf
  rw [List.take_succ_eq_append_getElem h, List.flatMap_append, List.length_append,
    List.flatMap_singleton]

theorem startOf_lt (units : List DiskUnit) {j k : Nat} (hjk : j < k) (hk : k ≤ units.length) :
    startOf units j < startOf units k := by
  induction k with
  | zero => exact absurd hjk (Nat.not_lt_zero j)
  | succ k ih =>
      rw [startOf_succ units k hk]
      have hpos := unit_length_pos units[k]
      rcases Nat.lt_or_eq_of_le (Nat.le_of_lt_succ hjk) with hlt | rfl
      · have hbefore := ih hlt (Nat.le_of_lt hk)
        omega
      · omega

theorem startOf_length {bytes : Bytes} {units : List DiskUnit} (h : DiskCut bytes units) :
    startOf units units.length = bytes.length := by
  rw [startOf, List.take_length, flatMap_units h]

/-- Between the ends of two units there is the unit. -/
theorem slice_unit {bytes : Bytes} {units : List DiskUnit} (h : DiskCut bytes units) (k : Nat)
    (hk : k < units.length) :
    (bytes.take (startOf units (k + 1))).drop (startOf units k) = units[k].bytes := by
  have hsplit : bytes = (units.take k).flatMap DiskUnit.bytes ++ units[k].bytes
      ++ (units.drop (k + 1)).flatMap DiskUnit.bytes := by
    rw [← List.flatMap_singleton DiskUnit.bytes units[k], ← List.flatMap_append,
      ← List.take_succ_eq_append_getElem hk, ← List.flatMap_append, List.take_append_drop,
      flatMap_units h]
  have hend : startOf units (k + 1)
      = ((units.take k).flatMap DiskUnit.bytes ++ units[k].bytes).length := by
    rw [startOf_succ units k hk, List.length_append, startOf]
  rw [hend, hsplit, List.take_left, startOf, List.drop_left]

/-- The bytes of a pair or of one character. -/
def Whole (part : Bytes) : Prop :=
  part = DiskUnit.pair.bytes ∨ ∃ c, part = String.utf8EncodeChar c

theorem whole_begins {part : Bytes} (h : Whole part) :
    ∃ first more, part = first :: more ∧ ¬ Utf8.Continues first := by
  rcases h with rfl | ⟨c, rfl⟩
  · exact ⟨0x0d, [0x0a], rfl, by rw [Utf8.continues_iff]; decide⟩
  · rcases Utf8.encodeChar_begins c with ⟨lead, run, hbytes, hlead, -⟩
    exact ⟨lead, run, hbytes, hlead⟩

/-- A unit ends before a pair or a character that occurs at it or after its beginning, or
    the whole of it is in the unit. -/
theorem unit_whole {unit : DiskUnit} {rest before part after : Bytes} (hfits : unit.Fits rest)
    (hpart : Whole part) (h : unit.bytes ++ rest = before ++ (part ++ after)) :
    unit.bytes.length ≤ before.length ∨ before.length + part.length ≤ unit.bytes.length := by
  cases before with
  | nil =>
      refine Or.inr ?_
      rw [List.length_nil, Nat.zero_add]
      rcases hpart with rfl | ⟨c, rfl⟩
      · rw [unit_of_pair hfits ⟨after, h.symm⟩]
      · rcases unit_of_char hfits ⟨after, h.symm⟩ with rfl | ⟨rfl, rfl⟩
        · exact Nat.le_refl _
        · decide
  | cons b before =>
      rcases whole_begins hpart with ⟨first, more, hfirst, hbegins⟩
      cases unit with
      | byte b' => exact Or.inl (Nat.succ_le_succ (Nat.zero_le _))
      | pair =>
          cases before with
          | cons b' before => exact Or.inl (Nat.succ_le_succ (Nat.succ_le_succ (Nat.zero_le _)))
          | nil =>
              -- What occurs after the carriage return of a pair is the line feed.
              have hfeed : 0x0a :: rest = part ++ after := (List.cons.inj h).2
              rcases hpart with rfl | ⟨c, rfl⟩
              · exact absurd (List.cons.inj hfeed).1 (by decide)
              · have hc := encodeChar_append_inj (c := '\n') (s := rest) hfeed
                rw [← hc.1]
                exact Or.inr (Nat.le_refl 2)
      | char d =>
          rcases Utf8.encodeChar_begins d with ⟨lead, run, hbytes, -, hrun⟩
          rw [DiskUnit.bytes, hbytes] at h ⊢
          have htail : run ++ rest = before ++ (part ++ after) := (List.cons.inj h).2
          by_cases hlt : before.length < run.length
          · -- Its first byte would be one that goes on with the character.
            have hget := congrArg (·[before.length]?) htail
            simp only [List.getElem?_append_left hlt, hfirst] at hget
            rw [List.getElem?_append_right (Nat.le_refl _), Nat.sub_self] at hget
            exact absurd (hrun first (List.mem_of_getElem? hget)) hbegins
          · exact Or.inl (Nat.succ_le_succ (Nat.le_of_not_lt hlt))

/-- No unit ends inside a character or a pair, wherever one occurs in the bytes. -/
theorem diskCut_whole {bytes : Bytes} {units : List DiskUnit} (h : DiskCut bytes units)
    (before part after : Bytes) (hpart : Whole part) (hbytes : bytes = before ++ (part ++ after))
    (k : Nat) :
    startOf units k ≤ before.length ∨ before.length + part.length ≤ startOf units k := by
  induction h generalizing before k with
  | nil => exact Or.inl (by rw [startOf, List.take_nil]; exact Nat.zero_le _)
  | @cons unit rest units hfits hrest ih =>
      cases k with
      | zero => exact Or.inl (Nat.zero_le _)
      | succ k =>
          have hstart : startOf (unit :: units) (k + 1)
              = unit.bytes.length + startOf units k := by
            rw [startOf, List.take_succ_cons, List.flatMap_cons, List.length_append, startOf]
          rw [hstart]
          rcases unit_whole hfits hpart hbytes with hbefore | hin
          · -- The occurrence is in the rest.
            have hdrop := congrArg (·.drop unit.bytes.length) hbytes
            simp only [List.drop_left, List.drop_append_of_le_length hbefore] at hdrop
            have hrest := ih (before.drop unit.bytes.length) hdrop k
            rw [List.length_drop] at hrest
            omega
          · exact Or.inr (Nat.le_trans hin (Nat.le_add_right _ _))

/-! ## Offsets -/

/-- The offsets of positions in a file are the ends of its units: they begin with zero
    and end with the length of the file, grow from one position to the next, stay the same
    outside, and have one unit between them each, and none is inside a pair or a
    character. -/
structure Measures (bytes : Bytes) (units : List DiskUnit) (offset : Int → Nat) : Prop where
  first : offset 1 = 0
  last : offset (units.length + 1) = bytes.length
  before : ∀ p ≤ 1, offset p = offset 1
  after : ∀ p : Int, units.length + 1 ≤ p → offset p = offset (units.length + 1)
  grows : ∀ p q : Int, 1 ≤ p → p < q → q ≤ units.length + 1 → offset p < offset q
  slice : ∀ (k : Nat) (h : k < units.length),
    (bytes.take (offset (k + 2))).drop (offset (k + 1)) = units[k].bytes
  whole : ∀ before part after, Whole part → bytes = before ++ (part ++ after) →
    ∀ p, offset p ≤ before.length ∨ before.length + part.length ≤ offset p

theorem measures_startOf {bytes : Bytes} {units : List DiskUnit} (h : DiskCut bytes units) :
    Measures bytes units fun p => startOf units (index units.length p) where
  first := rfl
  last := by
    rw [index_succ _ _ (Nat.le_refl _), startOf_length h]
  before := by
    intro p hp
    have hindex : index units.length p = 0 := by
      rw [index]
      omega
    rw [hindex]
    rfl
  after := by
    intro p hp
    have hindex : index units.length p = units.length := by
      rw [index]
      omega
    rw [hindex, index_succ _ _ (Nat.le_refl _)]
  grows := by
    intro p q hp hpq hq
    refine startOf_lt units ?_ (Nat.min_le_right _ _)
    simp only [index]
    omega
  slice := by
    intro k hk
    have hnext : (k : Int) + 2 = ((k + 1 : Nat) : Int) + 1 := by omega
    rw [hnext, index_succ _ _ hk, index_succ _ _ (Nat.le_of_lt hk), slice_unit h k hk]
  whole before part after hpart hbytes p := diskCut_whole h before part after hpart hbytes _

theorem textOffset_units {bytes : Bytes} {units : List DiskUnit} {text : Text}
    (h : DiskCut bytes units) (hlength : text.length = units.length) (p : Int) :
    textOffset (some (diskWidths bytes)) text p = startOf units (index units.length p) := by
  have hcount : (diskWidths bytes).length = text.length := by
    rw [diskWidths_eq h, List.length_map, hlength]
  simp only [textOffset, hcount, if_true]
  rw [widthOffset, hcount, hlength, startOf_eq_total, diskWidths_eq h]

theorem descriptor_comm (path : Text) (offset : Int → Nat) (a b : Int) :
    descriptor path offset ⟨a, some b⟩ = descriptor path offset ⟨b, some a⟩ := by
  simp only [descriptor, Nat.min_comm, Nat.max_comm]

theorem Measures.le_length {bytes : Bytes} {units : List DiskUnit} {offset : Int → Nat}
    (h : Measures bytes units offset) (p : Int) : offset p ≤ bytes.length := by
  rw [← h.last]
  by_cases hlow : p ≤ 1
  · rw [h.before p hlow, h.first]
    exact Nat.zero_le _
  · rcases Int.lt_or_le p (units.length + 1) with hlt | hle
    · exact Nat.le_of_lt (h.grows p _ (by omega) hlt (Int.le_refl _))
    · exact Nat.le_of_eq (h.after p hle)

end Position

namespace Host

open Position

/-- A file that can be read has one cut into units. In an editor that has as many
    characters as the file has units, the offsets that are described are the ends of the
    units, and a range is described by its two offsets, in whatever order and however far
    outside its ends are given. -/
theorem describe_measured (host : Host) (path real : Text) (bytes : Bytes) (text : Text)
    (hpath : host.canonicalPath path = .ok real)
    (hbytes : host.readBytes (FilePath.parse real).text = .ok bytes) :
    ∃ units, DiskCut bytes units ∧ (∀ others, DiskCut bytes others → others = units)
      ∧ (text.length = units.length →
        ∃ offset, Measures bytes units offset
          ∧ (∀ p, host.describe path (.ok ⟨p, none⟩) (some text)
              = .ok ⟨real, offset p, none⟩)
          ∧ ∀ a b, ∃ start stop : Int,
              host.describe path (.ok ⟨a, some b⟩) (some text) = .ok ⟨real, start, some stop⟩
              ∧ host.describe path (.ok ⟨b, some a⟩) (some text) = .ok ⟨real, start, some stop⟩
              ∧ start = min (offset a) (offset b) ∧ stop = max (offset a) (offset b)
              ∧ 0 ≤ start ∧ start ≤ stop ∧ stop ≤ bytes.length) := by
  rcases diskCut_exists bytes with ⟨units, hunits⟩
  refine ⟨units, hunits, fun others hothers => diskCut_unique hothers hunits, fun hlength => ?_⟩
  have hdescribe := fun selection => describe_text host path real selection bytes text hpath hbytes
  have hoffset : textOffset (some (diskWidths bytes)) text
      = fun p => startOf units (index units.length p) :=
    funext (textOffset_units hunits hlength)
  have hmeasures := measures_startOf hunits
  rw [hoffset] at hdescribe
  generalize (fun p => startOf units (index units.length p)) = offset at *
  refine ⟨offset, hmeasures, fun p => hdescribe ⟨p, none⟩, fun a b => ?_⟩
  have ha := hmeasures.le_length a
  have hb := hmeasures.le_length b
  refine ⟨((min (offset a) (offset b) : Nat) : Int), ((max (offset a) (offset b) : Nat) : Int),
    hdescribe ⟨a, some b⟩, ?_, by omega, by omega, by omega, by omega, by omega⟩
  rw [hdescribe ⟨b, some a⟩, ← descriptor_comm]
  rfl

/-- A file with a pair, a carriage return alone, a character of two bytes, and bytes
    that belong to no character at both its ends. -/
theorem describe_measured_mixed :
    let bytes : Bytes := [0xe2, 0x82, 0x0d, 0x0d, 0x0a, 0xc3, 0xa9, 0x62, 0x0d, 0xf0]
    let host : Host := .ofFiles ⟨[("a.go", .file bytes false)]⟩
    host.canonicalPath "/a.go" = .ok "/a.go"
      ∧ host.readBytes (FilePath.parse "/a.go").text = .ok bytes
      ∧ ∃ units offset, DiskCut bytes units ∧ units.length = 8 ∧ Measures bytes units offset
        ∧ ∀ p, host.describe "/a.go" (.ok ⟨p, none⟩) (some "12345678")
            = .ok ⟨"/a.go", offset p, none⟩ := by
  intro bytes host
  rcases describe_measured host "/a.go" "/a.go" bytes "12345678" rfl rfl with
    ⟨units, hunits, -, hmeasured⟩
  have hcount : units.length = 8 := by
    have hwidths := congrArg List.length (diskWidths_eq hunits)
    rw [List.length_map] at hwidths
    rw [← hwidths]
    with_unfolding_all rfl
  rcases hmeasured hcount.symm with ⟨offset, hmeasures, hpoint, -⟩
  exact ⟨rfl, rfl, units, offset, hunits, hcount, hmeasures, hpoint⟩

end Host

end QueryDesk
