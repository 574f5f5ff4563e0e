import QueryDesk.Proofs.Text.Utf8

/-!
# The bytes of a segment

The cut of a byte list loses nothing: each segment has bytes of its own, and those of
all segments put together are the list. For a broken part they are part of it. For a
character they are found again by encoding it, since a first byte with all the
followers it asks for is the one way that character is written.

Only the first byte of a segment can begin a character. The others are continuing
bytes, which no character begins with, so a character that occurs anywhere in a byte
list is a segment there.

## Main definitions

* `Utf8.Segment.bytes`: The bytes a segment is cut from.
* `Utf8.Continues`: The byte can only come after the first of a character.
* `Utf8.startAt`: The bytes before a segment.

## Theorems

* `followers?_bounds`: What a first byte asks of the bytes after it.
* `encodeChar_assemble`: A first byte with all its followers is how a character is
  written.
* `segmentAt_bytes`: The bytes of the first segment are those it takes.
* `flatMap_segments`: The segments of a byte list put together are the list.
* `fault?_eq_none_iff`: Bytes without a broken part are those of a text.
* `segments_drop`: What is cut from the beginning of a segment on.
* `length_broken`: How long a broken part is.
* `encodeChar_begins`: Only its first byte begins a character.
* `startAt_of_begins`: A byte that begins a character begins a segment.
* `segments_broken`: What begins with no character begins with a broken part.
-/

namespace QueryDesk

namespace Utf8

/-- The bytes a segment is cut from. -/
def Segment.bytes : Segment → Bytes
  | .char c => String.utf8EncodeChar c
  | .broken part => part

/-- The byte can only come after the first of a character. -/
def Continues (b : UInt8) : Prop :=
  0x80 ≤ b ∧ b ≤ 0xbf

theorem continues_iff (b : UInt8) : Continues b ↔ 0x80 ≤ b.toNat ∧ b.toNat ≤ 0xbf := by
  simp only [Continues, UInt8.le_iff_toNat_le, UInt8.reduceToNat]

/-! ## The run of followers -/

/-- What a first byte asks of the bytes after it: how many there are, and that the
    first of them keeps overlong forms, surrogates and numbers past the last character
    out. -/
theorem followers?_bounds {lead low high : UInt8} {count : Nat}
    (h : followers? lead = some (count, low, high)) :
    0x80 ≤ low.toNat ∧ high.toNat ≤ 0xbf
      ∧ (count = 1 ∧ 0xc2 ≤ lead.toNat ∧ lead.toNat < 0xe0
        ∨ count = 2 ∧ 0xe0 ≤ lead.toNat ∧ lead.toNat < 0xf0
          ∧ (lead.toNat ≠ 0xe0 ∨ 0xa0 ≤ low.toNat) ∧ (lead.toNat ≠ 0xed ∨ high.toNat ≤ 0x9f)
        ∨ count = 3 ∧ 0xf0 ≤ lead.toNat ∧ lead.toNat < 0xf5
          ∧ (lead.toNat ≠ 0xf0 ∨ 0x90 ≤ low.toNat)
          ∧ (lead.toNat ≠ 0xf4 ∨ high.toNat ≤ 0x8f)) := by
  simp only [followers?] at h
  repeat' split at h
  all_goals
    first
    | exact absurd h (by simp only [reduceCtorEq, not_false_eq_true])
    | simp only [Option.some.injEq, Prod.mk.injEq] at h
      rcases h with ⟨rfl, rfl, rfl⟩
      simp only [UInt8.reduceToNat, true_and]
      omega

theorem followRun_prefix (count : Nat) (low high : UInt8) (rest : Bytes) :
    followRun count low high rest <+: rest := by
  induction rest generalizing count low high with
  | nil => cases count <;> exact List.nil_prefix
  | cons b rest ih =>
      cases count with
      | zero => exact List.nil_prefix
      | succ count =>
          rw [followRun]
          split
          · exact (List.cons_prefix_cons).mpr ⟨rfl, ih count 0x80 0xbf⟩
          · exact List.nil_prefix

theorem length_followRun_le (count : Nat) (low high : UInt8) (rest : Bytes) :
    (followRun count low high rest).length ≤ count := by
  induction rest generalizing count low high with
  | nil => cases count <;> exact Nat.zero_le _
  | cons b rest ih =>
      cases count with
      | zero => exact Nat.zero_le _
      | succ count =>
          rw [followRun]
          split
          · exact Nat.succ_le_succ (ih count 0x80 0xbf)
          · exact Nat.zero_le _

/-- A run whose first byte is bounded as a follower has only continuing bytes. -/
theorem continues_of_mem_followRun {count : Nat} {low high : UInt8} {rest : Bytes}
    (hlow : 0x80 ≤ low.toNat) (hhigh : high.toNat ≤ 0xbf) {b : UInt8}
    (h : b ∈ followRun count low high rest) : Continues b := by
  induction rest generalizing count low high with
  | nil => cases count <;> exact absurd h List.not_mem_nil
  | cons first rest ih =>
      cases count with
      | zero => exact absurd h List.not_mem_nil
      | succ count =>
          rw [followRun] at h
          split at h
          · rename_i hfirst
            rcases List.mem_cons.mp h with rfl | h
            · simp only [UInt8.le_iff_toNat_le] at hfirst
              exact (continues_iff b).mpr (by omega)
            · exact ih (by decide) (by decide) h
          · exact absurd h List.not_mem_nil

/-- A run with as many followers as are asked for begins with one of them. -/
theorem followRun_full {count : Nat} {low high : UInt8} {rest : Bytes}
    (h : (followRun (count + 1) low high rest).length = count + 1) :
    ∃ b tail, low.toNat ≤ b.toNat ∧ b.toNat ≤ high.toNat
      ∧ followRun (count + 1) low high rest = b :: followRun count 0x80 0xbf tail
      ∧ (followRun count 0x80 0xbf tail).length = count := by
  cases rest with
  | nil => exact absurd h (by simp only [followRun, List.length_nil]; omega)
  | cons b tail =>
      rw [followRun] at h ⊢
      split at h
      · rename_i hb
        rw [if_pos hb]
        exact ⟨b, tail, UInt8.le_iff_toNat_le.mp hb.1, UInt8.le_iff_toNat_le.mp hb.2, rfl,
          Nat.succ.inj h⟩
      · exact absurd h (by simp only [List.length_nil]; omega)

/-! ## How a character is written -/

theorem val_ofNat (v : Nat) (h : v < 0xd800 ∨ 0xdfff < v ∧ v < 0x110000) :
    (Char.ofNat v).val.toNat = v := by
  have hvalid : v.isValidChar := h
  rw [Char.ofNat, dif_pos hvalid]
  rfl

theorem encodeChar_two (v : Nat) (hlow : 0x80 ≤ v) (hhigh : v ≤ 0x7ff) :
    String.utf8EncodeChar (Char.ofNat v)
      = [UInt8.ofNat (v / 64 % 32 + 0xc0), follower v] := by
  rw [String.utf8EncodeChar]
  simp only [val_ofNat v (by omega)]
  rw [if_neg (by omega), if_pos hhigh]
  rfl

theorem encodeChar_three (v : Nat) (hlow : 0x800 ≤ v) (hhigh : v ≤ 0xffff)
    (hscalar : v < 0xd800 ∨ 0xdfff < v) :
    String.utf8EncodeChar (Char.ofNat v)
      = [UInt8.ofNat (v / 4096 % 16 + 0xe0), follower (v / 64), follower v] := by
  rw [String.utf8EncodeChar]
  simp only [val_ofNat v (by omega)]
  rw [if_neg (by omega), if_neg (by omega), if_pos hhigh]
  rfl

theorem encodeChar_four (v : Nat) (hlow : 0x10000 ≤ v) (hhigh : v < 0x110000) :
    String.utf8EncodeChar (Char.ofNat v)
      = [UInt8.ofNat (v / 262144 % 8 + 0xf0), follower (v / 4096), follower (v / 64),
          follower v] := by
  rw [String.utf8EncodeChar]
  simp only [val_ofNat v (by omega)]
  rw [if_neg (by omega), if_neg (by omega), if_neg (by omega)]
  rfl

theorem ofNat_eq_of_toNat {n : Nat} {b : UInt8} (h : n = b.toNat) : UInt8.ofNat n = b := by
  rw [h, UInt8.ofNat_toNat]

/-- The follower of a number is the byte that holds its lowest six bits. -/
theorem follower_eq {n : Nat} {b : UInt8} (h : n % 64 + 0x80 = b.toNat) : follower n = b :=
  ofNat_eq_of_toNat h

/-- A first byte with all the followers it asks for is how the character they stand for
    is written. -/
theorem encodeChar_assemble {lead low high : UInt8} {count : Nat} {rest : Bytes}
    (hfollowers : followers? lead = some (count, low, high))
    (hrun : (followRun count low high rest).length = count) :
    String.utf8EncodeChar (assemble lead (followRun count low high rest))
      = lead :: followRun count low high rest := by
  rcases followers?_bounds hfollowers with ⟨hlow, hhigh, htwo | hthree | hfour⟩
  · rcases htwo with ⟨rfl, hlead⟩
    rcases followRun_full hrun with ⟨b, tail, hb, hb', heq, -⟩
    rw [heq, followRun, assemble]
    simp only [List.foldl_cons, List.foldl_nil, List.length_cons, List.length_nil,
      Nat.reduceAdd, Nat.reduceShiftRight]
    rw [encodeChar_two _ (by omega) (by omega), ofNat_eq_of_toNat (b := lead) (by omega),
      follower_eq (b := b) (by omega)]
  · rcases hthree with ⟨rfl, hlead⟩
    rcases followRun_full hrun with ⟨b, tail, hb, hb', heq, hrest⟩
    rcases followRun_full hrest with ⟨b₂, tail₂, hb₂, hb₂', heq₂, -⟩
    simp only [UInt8.reduceToNat] at hb₂ hb₂'
    rw [heq, heq₂, followRun, assemble]
    simp only [List.foldl_cons, List.foldl_nil, List.length_cons, List.length_nil,
      Nat.reduceAdd, Nat.reduceShiftRight]
    rw [encodeChar_three _ (by omega) (by omega) (by omega),
      ofNat_eq_of_toNat (b := lead) (by omega), follower_eq (b := b) (by omega),
      follower_eq (b := b₂) (by omega)]
  · rcases hfour with ⟨rfl, hlead⟩
    rcases followRun_full hrun with ⟨b, tail, hb, hb', heq, hrest⟩
    rcases followRun_full hrest with ⟨b₂, tail₂, hb₂, hb₂', heq₂, hrest₂⟩
    rcases followRun_full hrest₂ with ⟨b₃, tail₃, hb₃, hb₃', heq₃, -⟩
    simp only [UInt8.reduceToNat] at hb₂ hb₂' hb₃ hb₃'
    rw [heq, heq₂, heq₃, followRun, assemble]
    simp only [List.foldl_cons, List.foldl_nil, List.length_cons, List.length_nil,
      Nat.reduceAdd, Nat.reduceShiftRight]
    rw [encodeChar_four _ (by omega) (by omega), ofNat_eq_of_toNat (b := lead) (by omega),
      follower_eq (b := b) (by omega), follower_eq (b := b₂) (by omega),
      follower_eq (b := b₃) (by omega)]

/-! ## The cut -/

/-- A byte that can only come after the first of a character is a broken part. -/
theorem segmentAt_continues {lead : UInt8} (h : Continues lead) (rest : Bytes) :
    segmentAt lead rest = (.broken [lead], 0) := by
  have hlead := (continues_iff lead).mp h
  have hnone : followers? lead = none := by
    rw [followers?, if_pos (by omega)]
  rw [segmentAt, if_neg (not_ascii_of_le lead hlead.1), hnone]

/-- The bytes of the first segment are the first byte and the run that the segment takes,
    which has only continuing bytes. A broken part takes less than a character can. -/
theorem segmentAt_bytes (lead : UInt8) (rest : Bytes) :
    ∃ run tail, rest = run ++ tail ∧ (segmentAt lead rest).1.bytes = lead :: run
      ∧ (segmentAt lead rest).2 = run.length ∧ (∀ b ∈ run, Continues b)
      ∧ (∀ part, (segmentAt lead rest).1 = .broken part → run.length ≤ 2) := by
  by_cases hascii : lead < 0x80
  · have hlow : (Char.ofNat lead.toNat).val.toNat = lead.toNat :=
      val_ofNat _ (Or.inl (Nat.lt_trans (UInt8.lt_iff_toNat_lt.mp hascii) (by decide)))
    refine ⟨[], rest, rfl, ?_, ?_, fun _ hb => absurd hb List.not_mem_nil, ?_⟩
    · rw [segmentAt, if_pos hascii, Segment.bytes, String.utf8EncodeChar]
      simp only [hlow]
      rw [if_pos (Nat.le_of_lt_succ (UInt8.lt_iff_toNat_lt.mp hascii))]
      exact congrArg (· :: []) (ofNat_eq_of_toNat rfl)
    · rw [segmentAt, if_pos hascii]
      rfl
    · exact fun _ _ => Nat.zero_le _
  · cases hfollowers : followers? lead with
    | none =>
        have hsegment : segmentAt lead rest = (.broken [lead], 0) := by
          rw [segmentAt, if_neg hascii, hfollowers]
        rw [hsegment]
        exact ⟨[], rest, rfl, rfl, rfl, fun _ hb => absurd hb List.not_mem_nil,
          fun _ _ => Nat.zero_le _⟩
    | some asked =>
        rcases asked with ⟨count, low, high⟩
        have hbounds := followers?_bounds hfollowers
        rcases followRun_prefix count low high rest with ⟨tail, htail⟩
        have hcontinues : ∀ b ∈ followRun count low high rest, Continues b :=
          fun b hb => continues_of_mem_followRun hbounds.1 hbounds.2.1 hb
        by_cases hrun : (followRun count low high rest).length = count
        · have hsegment : segmentAt lead rest
              = (.char (assemble lead (followRun count low high rest)), count) := by
            simp only [segmentAt, if_neg hascii, hfollowers, if_pos hrun]
          rw [hsegment]
          exact ⟨_, tail, htail.symm, encodeChar_assemble hfollowers hrun, hrun.symm, hcontinues,
            fun part h => absurd h (by simp only [reduceCtorEq, not_false_eq_true])⟩
        · have hsegment : segmentAt lead rest
              = (.broken (lead :: followRun count low high rest),
                  (followRun count low high rest).length) := by
            simp only [segmentAt, if_neg hascii, hfollowers, if_neg hrun]
          rw [hsegment]
          have hle := length_followRun_le count low high rest
          exact ⟨_, tail, htail.symm, rfl, rfl, hcontinues, fun _ _ => by omega⟩

/-- A cut that begins with a segment: the bytes of the segment come first, and the rest is
    cut for itself. -/
theorem segments_eq_cons {bytes : Bytes} {segment : Segment} {later : List Segment}
    (h : segments bytes = segment :: later) :
    ∃ rest, bytes = segment.bytes ++ rest ∧ segments rest = later
      ∧ ∀ b ∈ segment.bytes.tail, Continues b := by
  cases bytes with
  | nil => exact absurd h (by simp only [segments, reduceCtorEq, not_false_eq_true])
  | cons lead rest =>
      rw [segments] at h
      rcases List.cons.inj h with ⟨rfl, hlater⟩
      rcases segmentAt_bytes lead rest with ⟨run, tail, hrest, hbytes, hcount, hcontinues, -⟩
      refine ⟨tail, ?_, ?_, ?_⟩
      · rw [hbytes, hrest, List.cons_append]
      · rwa [hcount, hrest, List.drop_left] at hlater
      · rwa [hbytes]

theorem segments_eq_nil {bytes : Bytes} (h : segments bytes = []) : bytes = [] := by
  cases bytes with
  | nil => rfl
  | cons lead rest => exact absurd h (by simp only [segments, reduceCtorEq, not_false_eq_true])

/-- The segments of a byte list put together are the list. -/
theorem flatMap_segments (bytes : Bytes) : (segments bytes).flatMap Segment.bytes = bytes := by
  generalize hcut : segments bytes = cut
  induction cut generalizing bytes with
  | nil => rw [segments_eq_nil hcut, List.flatMap_nil]
  | cons segment later ih =>
      rcases segments_eq_cons hcut with ⟨rest, rfl, hrest, -⟩
      rw [List.flatMap_cons, ih rest hrest]

/-- Segments among which no broken part is found are characters. -/
theorem map_char_of_faultFrom {offset left : Nat} {cut : List Segment}
    (h : faultFrom offset left cut = none) : ∃ t : Text, cut = t.map .char := by
  induction cut generalizing offset left with
  | nil => exact ⟨[], rfl⟩
  | cons segment later ih =>
      cases segment with
      | broken part => exact absurd h (Option.some_ne_none _)
      | char c =>
          rcases ih h with ⟨t, rfl⟩
          exact ⟨c :: t, rfl⟩

/-- Bytes have no broken part just when they are those of a text. -/
theorem fault?_eq_none_iff (bytes : Bytes) : fault? bytes = none ↔ ∃ t, encode t = bytes := by
  refine ⟨fun h => ?_, fun ⟨t, ht⟩ => ht ▸ fault?_encode t⟩
  rcases map_char_of_faultFrom h with ⟨t, ht⟩
  refine ⟨t, ?_⟩
  rw [← flatMap_segments bytes, ht, List.flatMap_map]
  rfl

/-- The bytes before the segment with an index. -/
def startAt (bytes : Bytes) (k : Nat) : Nat :=
  (((segments bytes).take k).flatMap Segment.bytes).length

/-- From the beginning of a segment on, a byte list is cut into the segments from there
    on. -/
theorem segments_drop (bytes : Bytes) (k : Nat) :
    segments (bytes.drop (startAt bytes k)) = (segments bytes).drop k := by
  unfold startAt
  generalize hcut : segments bytes = cut
  induction k generalizing bytes cut with
  | zero => exact hcut
  | succ k ih =>
      cases cut with
      | nil => rw [segments_eq_nil hcut, List.drop_nil, List.drop_nil, segments]
      | cons segment later =>
          rcases segments_eq_cons hcut with ⟨rest, rfl, hrest, -⟩
          rw [List.take_succ_cons, List.flatMap_cons, List.length_append, List.drop_succ_cons,
            ← List.drop_drop, List.drop_left]
          exact ih rest later hrest

theorem startAt_mono (bytes : Bytes) {j k : Nat} (h : j ≤ k) :
    startAt bytes j ≤ startAt bytes k := by
  rcases List.take_prefix_take_left (l := segments bytes) h with ⟨tail, htail⟩
  rw [startAt, startAt, ← htail, List.flatMap_append, List.length_append]
  exact Nat.le_add_right _ _

/-- A broken part has at least one byte and less than a character can have. -/
theorem length_broken {bytes part : Bytes} (h : .broken part ∈ segments bytes) :
    1 ≤ part.length ∧ part.length ≤ 3 := by
  generalize hcut : segments bytes = cut at h
  induction cut generalizing bytes with
  | nil => exact absurd h List.not_mem_nil
  | cons segment later ih =>
      rcases segments_eq_cons hcut with ⟨rest, -, hrest, -⟩
      rcases List.mem_cons.mp h with rfl | h
      · cases bytes with
        | nil => exact absurd hcut (by simp only [segments, reduceCtorEq, not_false_eq_true])
        | cons lead rest =>
            rw [segments] at hcut
            have hpart := (List.cons.inj hcut).1
            rcases segmentAt_bytes lead rest with ⟨run, tail, -, hbytes, -, -, hshort⟩
            rw [hpart] at hbytes
            have hrun := hshort part hpart
            rw [Segment.bytes] at hbytes
            rw [hbytes, List.length_cons]
            omega
      · exact ih hrest h

/-! ## Where a character can begin -/

/-- A character begins with a byte that can begin one, and goes on with bytes that
    cannot. -/
theorem encodeChar_begins (c : Char) :
    ∃ lead run, String.utf8EncodeChar c = lead :: run ∧ ¬ Continues lead
      ∧ ∀ b ∈ run, Continues b := by
  rcases segmentAt_encodeChar c [] with ⟨lead, run, hbytes, hsegment⟩
  rcases segmentAt_bytes lead (run ++ []) with ⟨run', tail, hrest, hbytes', -, hcontinues, -⟩
  rw [hsegment, Segment.bytes, hbytes] at hbytes'
  refine ⟨lead, run, hbytes, ?_, ?_⟩
  · intro hlead
    rw [segmentAt_continues hlead] at hsegment
    exact absurd (Prod.mk.inj hsegment).1 (by simp only [reduceCtorEq, not_false_eq_true])
  · rw [(List.cons.inj hbytes').2]
    exact hcontinues

/-- Where a byte is that does not continue a character, a segment begins. -/
theorem startAt_of_begins {bytes rest : Bytes} {lead : UInt8} {n : Nat}
    (h : bytes.drop n = lead :: rest) (hlead : ¬ Continues lead) :
    ∃ k, startAt bytes k = n := by
  unfold startAt
  generalize hcut : segments bytes = cut
  induction cut generalizing bytes n with
  | nil =>
      rw [segments_eq_nil hcut, List.drop_nil] at h
      exact absurd h.symm (List.cons_ne_nil _ _)
  | cons segment later ih =>
      rcases segments_eq_cons hcut with ⟨after, rfl, hafter, hcontinues⟩
      by_cases hlt : n < segment.bytes.length
      · cases n with
        | zero => exact ⟨0, rfl⟩
        | succ n =>
            -- Inside a segment there are only bytes that continue it.
            have hget := congrArg List.head? h
            rw [List.head?_drop, List.getElem?_append_left hlt, ← List.getElem?_tail] at hget
            exact absurd (hcontinues lead (List.mem_of_getElem? hget)) hlead
      · rw [List.drop_append, List.drop_eq_nil_of_le (Nat.le_of_not_lt hlt), List.nil_append] at h
        rcases ih h hafter with ⟨k, hk⟩
        refine ⟨k + 1, ?_⟩
        rw [List.take_succ_cons, List.flatMap_cons, List.length_append, hk]
        omega

theorem bytes_infix {bytes : Bytes} {segment : Segment} (h : segment ∈ segments bytes) :
    segment.bytes <:+: bytes := by
  rcases List.append_of_mem h with ⟨before, after, hsplit⟩
  refine ⟨before.flatMap Segment.bytes, after.flatMap Segment.bytes, ?_⟩
  rw [← flatMap_segments bytes, hsplit, List.flatMap_append, List.flatMap_cons,
    List.append_assoc]

/-- Bytes that begin with no character begin with a broken part: a first byte, and
    continuing bytes. -/
theorem segments_broken {b : UInt8} {rest : Bytes}
    (h : ∀ c, ¬ String.utf8EncodeChar c <+: b :: rest) :
    ∃ run tail, rest = run ++ tail ∧ (∀ b ∈ run, Continues b)
      ∧ segments (b :: rest) = .broken (b :: run) :: segments tail := by
  rcases segmentAt_bytes b rest with ⟨run, tail, hrest, hbytes, hcount, hcontinues, -⟩
  refine ⟨run, tail, hrest, hcontinues, ?_⟩
  rw [segments, hcount]
  cases hsegment : (segmentAt b rest).1 with
  | char c =>
      rw [hsegment, Segment.bytes] at hbytes
      refine absurd ?_ (h c)
      rw [hbytes, hrest]
      exact ⟨tail, rfl⟩
  | broken part =>
      rw [hsegment, Segment.bytes] at hbytes
      rw [hbytes, hrest, List.drop_left]

end Utf8

end QueryDesk
