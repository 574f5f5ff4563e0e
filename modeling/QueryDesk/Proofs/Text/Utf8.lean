import QueryDesk.Text.Measure

/-!
# Reading what was encoded

The bytes of a text are cut into exactly its characters, whatever bytes come
after them. The cut is made without looking back, so this is shown for one
character in front of any bytes and carried along the text.

A character takes one to four bytes. Its first byte tells how many follow and
bounds the second one, and the bounds are met because a character is neither a
surrogate nor above U+10FFFF, and because no shorter form would have held it.

## Main definitions

* `Utf8.follower`: The byte that holds the lowest six bits of a number.

## Theorems

* `followRun_follower`: A follower within the bounds is taken.
* `segmentAt_of_run`: A first byte with all its followers is one character.
* `segmentAt_two`, `segmentAt_three`, `segmentAt_four`: The forms of several bytes.
* `segmentAt_encodeChar`: The bytes of a character are one segment.
* `segments_encode_append`: The bytes of a text are its characters.
* `decodeLossy_encode`: Reading what was encoded gives the text back.
* `length_encode`: A text takes as many bytes as are measured.
-/

namespace QueryDesk

namespace Utf8

/-- The byte after the first of a character that holds the lowest six bits of a
    number. -/
def follower (n : Nat) : UInt8 :=
  UInt8.ofNat (n % 64 + 0x80)

theorem follower_bounds (n : Nat) : 0x80 ≤ follower n ∧ follower n ≤ 0xbf := by
  simp only [follower, UInt8.le_iff_toNat_le, UInt8.toNat_ofNat', UInt8.reduceToNat]
  omega

theorem follower_toNat_mod (n : Nat) : (follower n).toNat % 64 = n % 64 := by
  simp only [follower, UInt8.toNat_ofNat']
  omega

/-- A follower within the bounds is taken, and those after it are bounded only
    as followers. -/
theorem followRun_follower (count n : Nat) (low high : UInt8) (rest : Bytes)
    (hlow : low ≤ follower n) (hhigh : follower n ≤ high) :
    followRun (count + 1) low high (follower n :: rest)
      = follower n :: followRun count 0x80 0xbf rest := by
  rw [followRun, if_pos ⟨hlow, hhigh⟩]

theorem not_ascii_of_le (lead : UInt8) (h : 0x80 ≤ lead.toNat) : ¬ lead < 0x80 := by
  rw [UInt8.lt_iff_toNat_lt]
  exact Nat.not_lt.mpr h

/-- A first byte with all its followers is one character. -/
theorem segmentAt_of_run (lead low high : UInt8) (run rest : Bytes)
    (hlead : ¬ lead < 0x80) (hfollowers : followers? lead = some (run.length, low, high))
    (hrun : followRun run.length low high (run ++ rest) = run) :
    segmentAt lead (run ++ rest) = (.char (assemble lead run), run.length) := by
  simp only [segmentAt, if_neg hlead, hfollowers, hrun, if_true]

theorem scalar_bounds (c : Char) :
    c.toNat < 0xd800 ∨ 0xdfff < c.toNat ∧ c.toNat < 0x110000 := by
  have hvalid := c.valid
  simp only [UInt32.isValidChar, Nat.isValidChar] at hvalid
  exact hvalid

/-- Two bytes hold the numbers from 0x80 on. -/
theorem segmentAt_two (v : Nat) (rest : Bytes) (hlow : 0x80 ≤ v) (hhigh : v ≤ 0x7ff) :
    segmentAt (UInt8.ofNat (v / 64 % 32 + 0xc0)) (follower v :: rest)
      = (.char (Char.ofNat v), 1) := by
  have hlead : (UInt8.ofNat (v / 64 % 32 + 0xc0)).toNat = v / 64 + 0xc0 := by
    rw [UInt8.toNat_ofNat']
    omega
  have hsegment := segmentAt_of_run (UInt8.ofNat (v / 64 % 32 + 0xc0)) 0x80 0xbf
    [follower v] rest
    (not_ascii_of_le _ (by omega))
    (by
      simp only [followers?, hlead]
      rw [if_neg (by omega), if_pos (by omega)]
      rfl)
    (followRun_follower 0 v 0x80 0xbf rest (follower_bounds v).1 (follower_bounds v).2)
  refine hsegment.trans ?_
  simp only [assemble, List.foldl_cons, List.foldl_nil, hlead, follower_toNat_mod,
    List.length_cons, List.length_nil, Nat.reduceAdd, Nat.reduceShiftRight]
  congr 3
  omega

/-- Three bytes hold the numbers from 0x800 on that are no surrogates. -/
theorem segmentAt_three (v : Nat) (rest : Bytes) (hlow : 0x800 ≤ v) (hhigh : v ≤ 0xffff)
    (hscalar : v < 0xd800 ∨ 0xdfff < v) :
    segmentAt (UInt8.ofNat (v / 4096 % 16 + 0xe0))
        (follower (v / 64) :: follower v :: rest) = (.char (Char.ofNat v), 2) := by
  have hlead : (UInt8.ofNat (v / 4096 % 16 + 0xe0)).toNat = v / 4096 + 0xe0 := by
    rw [UInt8.toNat_ofNat']
    omega
  -- The first follower tells overlong forms and surrogates apart.
  have hbounds : ∃ low high, followers? (UInt8.ofNat (v / 4096 % 16 + 0xe0)) = some (2, low, high)
      ∧ low ≤ follower (v / 64) ∧ follower (v / 64) ≤ high := by
    simp only [followers?, hlead]
    rw [if_neg (by omega), if_neg (by omega)]
    by_cases hfirst : v / 4096 + 0xe0 = 0xe0
    · refine ⟨0xa0, 0xbf, by rw [if_pos hfirst], ?_, (follower_bounds _).2⟩
      simp only [follower, UInt8.le_iff_toNat_le, UInt8.toNat_ofNat', UInt8.reduceToNat]
      omega
    · rw [if_neg hfirst]
      by_cases hlast : v / 4096 + 0xe0 = 0xed
      · refine ⟨0x80, 0x9f, by rw [if_pos hlast], (follower_bounds _).1, ?_⟩
        simp only [follower, UInt8.le_iff_toNat_le, UInt8.toNat_ofNat', UInt8.reduceToNat]
        omega
      · refine ⟨0x80, 0xbf, ?_, follower_bounds _⟩
        rw [if_neg hlast, if_pos (by omega)]
  rcases hbounds with ⟨low, high, hfollowers, hle, hge⟩
  have hsegment := segmentAt_of_run _ low high [follower (v / 64), follower v] rest
    (not_ascii_of_le _ (by omega)) hfollowers
    (by
      refine (followRun_follower 1 (v / 64) low high (follower v :: rest) hle hge).trans ?_
      rw [followRun_follower 0 v 0x80 0xbf rest (follower_bounds v).1 (follower_bounds v).2,
        followRun])
  refine hsegment.trans ?_
  simp only [assemble, List.foldl_cons, List.foldl_nil, hlead, follower_toNat_mod,
    List.length_cons, List.length_nil, Nat.reduceAdd, Nat.reduceShiftRight]
  congr 3
  omega

/-- Four bytes hold the numbers from 0x10000 up to the last character. -/
theorem segmentAt_four (v : Nat) (rest : Bytes) (hlow : 0x10000 ≤ v) (hhigh : v < 0x110000) :
    segmentAt (UInt8.ofNat (v / 262144 % 8 + 0xf0))
        (follower (v / 4096) :: follower (v / 64) :: follower v :: rest)
      = (.char (Char.ofNat v), 3) := by
  have hlead : (UInt8.ofNat (v / 262144 % 8 + 0xf0)).toNat = v / 262144 + 0xf0 := by
    rw [UInt8.toNat_ofNat']
    omega
  -- The first follower tells overlong forms and numbers past the last one apart.
  have hbounds : ∃ low high,
      followers? (UInt8.ofNat (v / 262144 % 8 + 0xf0)) = some (3, low, high)
      ∧ low ≤ follower (v / 4096) ∧ follower (v / 4096) ≤ high := by
    simp only [followers?, hlead]
    rw [if_neg (by omega), if_neg (by omega), if_neg (by omega), if_neg (by omega),
      if_neg (by omega)]
    by_cases hfirst : v / 262144 + 0xf0 = 0xf0
    · refine ⟨0x90, 0xbf, by rw [if_pos hfirst], ?_, (follower_bounds _).2⟩
      simp only [follower, UInt8.le_iff_toNat_le, UInt8.toNat_ofNat', UInt8.reduceToNat]
      omega
    · rw [if_neg hfirst]
      by_cases hlast : v / 262144 + 0xf0 < 0xf4
      · exact ⟨0x80, 0xbf, by rw [if_pos hlast], follower_bounds _⟩
      · refine ⟨0x80, 0x8f, ?_, (follower_bounds _).1, ?_⟩
        · rw [if_neg hlast, if_pos (by omega)]
        · simp only [follower, UInt8.le_iff_toNat_le, UInt8.toNat_ofNat', UInt8.reduceToNat]
          omega
  rcases hbounds with ⟨low, high, hfollowers, hle, hge⟩
  have hsegment := segmentAt_of_run _ low high
    [follower (v / 4096), follower (v / 64), follower v] rest
    (not_ascii_of_le _ (by omega)) hfollowers
    (by
      refine (followRun_follower 2 (v / 4096) low high
        (follower (v / 64) :: follower v :: rest) hle hge).trans ?_
      rw [followRun_follower 1 (v / 64) 0x80 0xbf _ (follower_bounds _).1 (follower_bounds _).2,
        followRun_follower 0 v 0x80 0xbf rest (follower_bounds v).1 (follower_bounds v).2,
        followRun])
  refine hsegment.trans ?_
  simp only [assemble, List.foldl_cons, List.foldl_nil, hlead, follower_toNat_mod,
    List.length_cons, List.length_nil, Nat.reduceAdd, Nat.reduceShiftRight]
  congr 3
  omega

/-- The bytes of a character are one segment, whatever comes after them. -/
theorem segmentAt_encodeChar (c : Char) (rest : Bytes) :
    ∃ lead run, String.utf8EncodeChar c = lead :: run
      ∧ segmentAt lead (run ++ rest) = (.char c, run.length) := by
  have hscalar := scalar_bounds c
  have hback : Char.ofNat c.val.toNat = c := Char.ofNat_toNat c
  simp only [String.utf8EncodeChar]
  change c.val.toNat < _ ∨ _ < c.val.toNat ∧ c.val.toNat < _ at hscalar
  generalize c.val.toNat = v at *
  -- One case for each number of bytes a character takes.
  by_cases hone : v ≤ 0x7f
  · have hlead : (UInt8.ofNat v).toNat = v := by
      rw [UInt8.toNat_ofNat']
      omega
    refine ⟨UInt8.ofNat v, [], by rw [if_pos hone], ?_⟩
    have hascii : UInt8.ofNat v < 0x80 := by
      rw [UInt8.lt_iff_toNat_lt, hlead]
      exact Nat.lt_succ_of_le hone
    rw [segmentAt, if_pos hascii, hlead, hback]
    rfl
  · rw [if_neg hone]
    by_cases htwo : v ≤ 0x7ff
    · exact ⟨_, [follower v], by rw [if_pos htwo]; rfl,
        hback ▸ segmentAt_two v rest (by omega) htwo⟩
    · rw [if_neg htwo]
      by_cases hthree : v ≤ 0xffff
      · exact ⟨_, [follower (v / 64), follower v], by rw [if_pos hthree]; rfl,
          hback ▸ segmentAt_three v rest (by omega) hthree (by omega)⟩
      · exact ⟨_, [follower (v / 4096), follower (v / 64), follower v],
          by rw [if_neg hthree]; rfl, hback ▸ segmentAt_four v rest (by omega) (by omega)⟩

theorem segments_encodeChar_append (c : Char) (rest : Bytes) :
    segments (String.utf8EncodeChar c ++ rest) = .char c :: segments rest := by
  rcases segmentAt_encodeChar c rest with ⟨lead, run, hbytes, hsegment⟩
  rw [hbytes, List.cons_append, segments, hsegment, List.drop_left]

/-- The bytes of a text are cut into its characters, whatever comes after
    them. -/
theorem segments_encode_append (t : Text) (rest : Bytes) :
    segments (encode t ++ rest) = t.map .char ++ segments rest := by
  induction t with
  | nil => rfl
  | cons c t ih =>
      simp only [encode, List.flatMap_cons, List.append_assoc, List.map_cons, List.cons_append]
      rw [segments_encodeChar_append]
      exact congrArg _ ih

theorem segments_encode (t : Text) : segments (encode t) = t.map .char := by
  have h := segments_encode_append t []
  rwa [List.append_nil, segments, List.append_nil] at h

/-- Reading what was encoded gives the text back. -/
theorem decodeLossy_encode (t : Text) : decodeLossy (encode t) = t := by
  rw [decodeLossy, segments_encode, List.map_map]
  exact List.map_id t

-- Characters have no broken part among them.
theorem faultFrom_map_char (offset left : Nat) (t : Text) :
    faultFrom offset left (t.map .char) = none := by
  induction t generalizing offset left with
  | nil => rfl
  | cons c t ih => exact ih _ _

/-- What was encoded has no broken part. -/
theorem fault?_encode (t : Text) : fault? (encode t) = none := by
  rw [fault?, segments_encode, faultFrom_map_char]

theorem encode_injective (s t : Text) (h : encode s = encode t) : s = t := by
  rw [← decodeLossy_encode s, h, decodeLossy_encode]

theorem encode_append (s t : Text) : encode (s ++ t) = encode s ++ encode t :=
  List.flatMap_append

/-- A text takes as many bytes as are measured. -/
theorem length_encode (t : Text) : (encode t).length = Text.byteLength t := by
  induction t with
  | nil => rfl
  | cons c t ih =>
      rw [encode, List.flatMap_cons, List.length_append]
      exact congrArg _ ih

end Utf8

namespace Encoding

/-- Bytes of a text in UTF-8 are those of its characters. -/
theorem eq_of_encode?_utf8 {t : Text} {bytes : Bytes} (h : utf8.encode? t = some bytes) :
    bytes = Utf8.encode t := by
  rw [encode?] at h
  split at h
  · exact absurd h (Option.some_ne_none _).symm
  · exact (Option.some.inj h).symm

end Encoding

end QueryDesk
