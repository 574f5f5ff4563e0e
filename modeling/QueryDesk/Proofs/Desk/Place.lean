import QueryDesk.Proofs.Desk.Resaved
import QueryDesk.Proofs.Text.Split

/-!
# Going to the place of an offset

What the tool says about a file it says by line and column, both counted on disk: a
line ends at a line feed, and a column counts the bytes since. The editor counts its
own lines, and its columns in sixteen-bit units. Going to the place of an offset leads
back to the character that was told as this offset, because each of the steps keeps
two things about the text before a position: how many line feeds are in it, and what
comes after the last of them.

Reading drops the carriage return of a pair, which is in no line of either side. The
buffer puts a block break for each feed. And a byte of a character is that of a line
feed only when the character is one.

## Main definitions

* `Position.lineAt`, `Position.columnAt`: The place of an offset, as the tool counts it.
* `Text.PairedReturns`: Each carriage return stands before a line feed.

## Theorems

* `count_feed_encode`, `lastPart_encode`: Line feeds among the bytes of a text.
* `feeds_flatten`: Line feeds before a cell.
* `feeds_sourceText`: Block breaks before a character.
* `goTo_character`: Going to the line and the column of a character.
* `offsets_lead_back`: Going to the place of an offset in a file that was loaded.
-/

namespace QueryDesk

namespace Position

/-- The line of a byte offset, counted from one: line feeds end lines. -/
def lineAt (bytes : Bytes) (offset : Nat) : Int :=
  ((bytes.take offset).count 0x0a : Int) + 1

/-- The column of a byte offset, counted from one: the bytes since the last line
    feed. -/
def columnAt (bytes : Bytes) (offset : Nat) : Int :=
  ((Text.lastPart 0x0a (bytes.take offset)).length : Int) + 1

end Position

/-! ## Line feeds on disk -/

namespace Utf8

theorem high_ofNat (n m k : Nat) (hm : 0 < m) (hk : 0x80 ≤ k) (h : k + m ≤ 0x100) :
    0x80 ≤ (UInt8.ofNat (n % m + k)).toNat := by
  have hlt := Nat.mod_lt n hm
  rw [UInt8.toNat_ofNat']
  omega

/-- Only an ASCII character has a byte below 0x80. -/
theorem high_of_mem_encodeChar {c : Char} (hc : 0x80 ≤ c.toNat) {b : UInt8}
    (h : b ∈ String.utf8EncodeChar c) : 0x80 ≤ b.toNat := by
  change 0x80 ≤ c.val.toNat at hc
  simp only [String.utf8EncodeChar] at h
  generalize c.val.toNat = v at *
  rw [if_neg (by omega)] at h
  split at h
  · simp only [List.mem_cons, List.not_mem_nil, or_false] at h
    rcases h with rfl | rfl <;> exact high_ofNat _ _ _ (by decide) (by decide) (by decide)
  · split at h
    · simp only [List.mem_cons, List.not_mem_nil, or_false] at h
      rcases h with rfl | rfl | rfl <;>
        exact high_ofNat _ _ _ (by decide) (by decide) (by decide)
    · simp only [List.mem_cons, List.not_mem_nil, or_false] at h
      rcases h with rfl | rfl | rfl | rfl <;>
        exact high_ofNat _ _ _ (by decide) (by decide) (by decide)

theorem encodeChar_ascii {c : Char} (hc : c.toNat < 0x80) :
    String.utf8EncodeChar c = [UInt8.ofNat c.toNat] := by
  rw [String.utf8EncodeChar]
  exact if_pos (Nat.le_of_lt_succ hc)

/-- No character but the line feed has its byte. -/
theorem feed_not_mem_encodeChar {c : Char} (hc : c ≠ '\n') : 0x0a ∉ String.utf8EncodeChar c := by
  intro h
  by_cases hascii : c.toNat < 0x80
  · rw [encodeChar_ascii hascii, List.mem_singleton] at h
    have hvalue := congrArg UInt8.toNat h
    rw [UInt8.toNat_ofNat', Nat.mod_eq_of_lt (by omega)] at hvalue
    exact hc (Char.toNat_inj.mp hvalue.symm)
  · have hhigh := high_of_mem_encodeChar (Nat.not_lt.mp hascii) h
    exact absurd hhigh (by decide)

theorem encode_concat (t : Text) (c : Char) :
    encode (t ++ [c]) = encode t ++ String.utf8EncodeChar c := by
  rw [encode_append, encode, encode, List.flatMap_singleton]

theorem count_feed_encode (t : Text) : (encode t).count 0x0a = t.count '\n' := by
  induction t using List.reverseRecOn with
  | nil => rfl
  | append_singleton t c ih =>
      rw [encode_concat, List.count_append, List.count_append, ih]
      by_cases hc : c = '\n'
      · rw [hc]
        rfl
      · rw [List.count_eq_zero_of_not_mem (feed_not_mem_encodeChar hc), List.count_singleton,
          if_neg (beq_iff_eq.not.mpr hc)]

theorem lastPart_encode (t : Text) :
    Text.lastPart 0x0a (encode t) = encode (Text.lastPart '\n' t) := by
  induction t using List.reverseRecOn with
  | nil => rfl
  | append_singleton t c ih =>
      rw [encode_concat]
      by_cases hc : c = '\n'
      · rw [hc, Text.lastPart_concat_self]
        exact Text.lastPart_concat_self _ _
      · rw [Text.lastPart_append _ _ (feed_not_mem_encodeChar hc), ih,
          Text.lastPart_concat_of_ne hc, encode_concat]

end Utf8

/-- The place of the offset after a text is told by the text. -/
theorem Position.place_encode (s t : Text) :
    lineAt (Utf8.encode (s ++ t)) (Text.byteLength s) = (s.count '\n' : Int) + 1
      ∧ columnAt (Utf8.encode (s ++ t)) (Text.byteLength s)
        = (Text.byteLength (Text.lastPart '\n' s) : Int) + 1 := by
  have htake : (Utf8.encode (s ++ t)).take (Text.byteLength s) = Utf8.encode s := by
    rw [Utf8.encode_append, ← Utf8.length_encode, List.take_left]
  rw [lineAt, columnAt, htake, Utf8.count_feed_encode, Utf8.lastPart_encode, Utf8.length_encode]
  exact ⟨rfl, rfl⟩

/-! ## Line feeds in cells and in buffers -/

namespace Text

/-- Each carriage return of the text stands directly before a line feed. -/
def PairedReturns (raw : Text) : Prop :=
  ∀ k, raw[k]? = some '\r' → raw[k + 1]? = some '\n'

theorem PairedReturns.tail {c : Char} {raw : Text} (h : PairedReturns (c :: raw)) :
    PairedReturns raw :=
  fun k hk => h (k + 1) hk

theorem PairedReturns.not_mem_unpair {raw : Text} (h : PairedReturns raw) : '\r' ∉ unpair raw := by
  fun_induction unpair raw with
  | case1 => exact List.not_mem_nil
  | case2 rest ih =>
      rw [List.mem_cons, not_or]
      exact ⟨by decide, ih h.tail.tail⟩
  | case3 c rest hpair ih =>
      rw [List.mem_cons, not_or]
      refine ⟨fun hc => ?_, ih h.tail⟩
      -- A return that is kept would stand before no feed.
      have hnext := h 0 (by rw [List.getElem?_cons_zero, ← hc])
      rw [List.getElem?_cons_succ] at hnext
      cases rest with
      | nil => exact absurd hnext (by simp only [List.getElem?_nil, reduceCtorEq,
          not_false_eq_true])
      | cons d rest =>
          rw [List.getElem?_cons_zero, Option.some.injEq] at hnext
          exact hpair rest hc.symm (by rw [hnext])

theorem mem_of_mem_unpair {c : Char} {raw : Text} (h : c ∈ unpair raw) : c ∈ raw := by
  fun_induction unpair raw with
  | case1 => exact h
  | case2 rest ih =>
      rcases List.mem_cons.mp h with rfl | h
      · exact List.mem_cons_of_mem _ List.mem_cons_self
      · exact List.mem_cons_of_mem _ (List.mem_cons_of_mem _ (ih h))
  | case3 d rest hpair ih =>
      rcases List.mem_cons.mp h with rfl | h
      · exact List.mem_cons_self
      · exact List.mem_cons_of_mem _ (ih h)

/-- Line feeds among some cells are line feeds of what they are read as. -/
theorem feeds_flatten (ts : List Text) (h : ∀ cell ∈ ts, cell = ['\r', '\n'] ∨ ∃ c, cell = [c]) :
    ts.flatten.count '\n' = (ts.map cellChar).count '\n'
      ∧ lastPart '\n' ts.flatten = lastPart '\n' (ts.map cellChar) := by
  induction ts using List.reverseRecOn with
  | nil => exact ⟨rfl, rfl⟩
  | append_singleton ts cell ih =>
      rcases ih fun other hother => h other (List.mem_append_left _ hother) with ⟨hcount, hlast⟩
      have hflat : (ts ++ [cell]).flatten = ts.flatten ++ cell := by
        rw [List.flatten_append, List.flatten_singleton]
      have hmap : (ts ++ [cell]).map cellChar = ts.map cellChar ++ [cellChar cell] := by
        rw [List.map_append, List.map_singleton]
      rw [hflat, hmap, List.count_append, List.count_append, hcount]
      rcases h cell (List.mem_append_right _ (List.mem_singleton_self cell)) with rfl | ⟨c, rfl⟩
      · -- Nothing comes after the feed of a pair, on either side.
        refine ⟨rfl, ?_⟩
        have hpair : ts.flatten ++ ['\r', '\n'] = (ts.flatten ++ ['\r']) ++ ['\n'] := by
          rw [List.append_assoc]
          rfl
        rw [hpair, lastPart_concat_self]
        exact (lastPart_concat_self _ _).symm
      · have hchar : cellChar [c] = c := rfl
        rw [hchar]
        refine ⟨rfl, ?_⟩
        by_cases hc : c = '\n'
        · rw [hc, lastPart_concat_self, lastPart_concat_self]
        · rw [lastPart_concat_of_ne hc, lastPart_concat_of_ne hc, hlast]

end Text

namespace Buffer

/-- Line feeds of the text given back are block breaks of the content, which itself holds
    no feed. -/
theorem feeds_sourceText (t : Text) (h : '\n' ∉ t) :
    (t.map sourceChar).count '\n' = t.count blockBreak
      ∧ Text.lastPart '\n' (t.map sourceChar) = Text.lastPart blockBreak t := by
  induction t using List.reverseRecOn with
  | nil => exact ⟨rfl, rfl⟩
  | append_singleton t c ih =>
      rw [List.mem_append, not_or, List.mem_singleton] at h
      rcases ih h.1 with ⟨hcount, hlast⟩
      rw [List.map_append, List.map_singleton, List.count_append, List.count_append, hcount]
      by_cases hc : c = blockBreak
      · have hsource : sourceChar blockBreak = '\n' := by decide
        rw [hc, hsource, Text.lastPart_concat_self, Text.lastPart_concat_self,
          List.count_singleton_self, List.count_singleton_self]
        exact ⟨rfl, rfl⟩
      · have hsource : sourceChar c = c := if_neg hc
        rw [hsource, Text.lastPart_concat_of_ne (Ne.symm h.2), Text.lastPart_concat_of_ne hc, hlast,
          List.count_singleton, List.count_singleton, if_neg (beq_iff_eq.not.mpr (Ne.symm h.2)),
          if_neg (beq_iff_eq.not.mpr hc)]
        exact ⟨rfl, rfl⟩

end Buffer

/-! ## Going to a line and a column -/

namespace Editor

theorem unitLength_blocks (before : List Text) :
    Text.total (before.map fun t => Text.unitLength t + 1)
      = Text.unitLength (before.flatMap (· ++ [Buffer.blockBreak])) := by
  have hbreak : Text.unitLength [Buffer.blockBreak] = 1 := by decide
  rw [List.flatMap_def, Text.unitLength, Text.measure_flatten, List.map_map]
  refine congrArg Text.total (List.map_congr_left fun t _ => ?_)
  rw [Function.comp_apply, Text.measure_append]
  exact congrArg (Text.unitLength t + ·) hbreak.symm

/-- The position of the line and the column of a character is what the characters before
    it take. -/
theorem positionOf_character (buffer : Buffer) (k : Nat) :
    positionOf buffer (((buffer.content.take k).count Buffer.blockBreak : Int) + 1)
        ((Text.byteLength (Text.lastPart Buffer.blockBreak (buffer.content.take k)) : Int) + 1)
      = Text.unitLength (buffer.content.take k) := by
  rcases Text.splitOn_append_left Buffer.blockBreak (buffer.content.take k) with
    ⟨before, hlength, hwhole, hsplit⟩
  rcases List.exists_cons_of_ne_nil (l := Text.splitOn Buffer.blockBreak (buffer.content.drop k))
    (by rw [Text.splitOn_eq]; exact List.splitOn_ne_nil _ _) with ⟨rest, after, hrest⟩
  generalize Text.lastPart Buffer.blockBreak (buffer.content.take k) = l at *
  have hblocks : buffer.blocks = before ++ (l ++ rest) :: after := by
    rw [Buffer.blocks, ← hsplit _ rest after hrest, List.take_append_drop]
  -- The block of the character is the one after those before it.
  have hblock : min ((((buffer.content.take k).count Buffer.blockBreak : Int) + 1) - 1).toNat
      (buffer.blocks.length - 1) = before.length := by
    rw [hblocks, List.length_append, List.length_cons, hlength]
    omega
  have hcolumn : max 0 (((Text.byteLength l : Int) + 1) - 1) = (Text.byteLength l : Int) := by
    omega
  have hback : Position.ofOffset (l ++ rest) (Text.byteLength l : Int) - 1 = l.length := by
    have hreach := Text.reach_measure_take Text.byteWidth Text.byteWidth_pos (l ++ rest) l.length
    rw [List.take_left, List.length_append, Nat.min_eq_left (Nat.le_add_right _ _)] at hreach
    rw [Position.ofOffset, Int.toNat_natCast, Nat.add_sub_cancel]
    exact hreach
  have hget : (buffer.blocks[before.length]?).getD [] = l ++ rest := by
    rw [hblocks, List.getElem?_append_right (Nat.le_refl _), Nat.sub_self,
      List.getElem?_cons_zero, Option.getD_some]
  unfold positionOf
  simp only [hblock, hget, hcolumn, hback, List.take_left]
  rw [Buffer.blockStart, hblocks, List.take_left, unitLength_blocks, ← hwhole]
  exact (Text.measure_append Text.unitWidth _ l).symm

/-- Going to the line and the column of a character, as the text tells them, puts the
    cursor before the character. -/
theorem goTo_character (editor : Editor) (hunbroken : editor.buffer.Unbroken) (k : Nat)
    (hk : k ≤ editor.sourceText.length) :
    (editor.goTo (((editor.sourceText.take k).count '\n' : Int) + 1)
        ((Text.byteLength (Text.lastPart '\n' (editor.sourceText.take k)) : Int) + 1)).selection
      = ⟨(k : Int) + 1, none⟩ := by
  have hfeed : '\n' ∉ editor.buffer.content.take k := fun hmem =>
    (hunbroken '\n' (List.mem_of_mem_take hmem)).2 rfl
  have htake : editor.sourceText.take k = (editor.buffer.content.take k).map Buffer.sourceChar :=
    (List.map_take ..).symm
  rcases Buffer.feeds_sourceText _ hfeed with ⟨hcount, hlast⟩
  rw [goTo, htake, hcount, hlast, positionOf_character, ← Buffer.unitLength_take_sourceText]
  change Editor.selection { editor with buffer := editor.buffer.place _ } = _
  rw [← sourceText, place_unitLength_take]
  change (editor.selectCharacters k k).selection = _
  rw [selectCharacters_selection editor k k hk hk, Selection.ofBounds, if_pos rfl]

/-! ## A file that was loaded -/

/-- What is shown of a file in which each return stands before a feed and which holds no
    paragraph separator is what was read. -/
theorem shown_of_paired (raw : Text) (hreturn : Text.PairedReturns raw)
    (hbreak : Buffer.blockBreak ∉ raw) : shown (Utf8.encode raw) = Text.unpair raw := by
  rw [shown, Utf8.decodeLossy_encode, sourceText_ofText _ hreturn.not_mem_unpair]
  refine (List.map_congr_left fun c hc => if_neg fun heq => hbreak ?_).trans (List.map_id _)
  exact Text.mem_of_mem_unpair (heq ▸ hc)

/-- Going to the place of an offset in a file that was loaded leads back to the character
    whose offset it is. -/
theorem offsets_lead_back (host : Host) (editor : Editor) (path raw : Text)
    (hpath : host.canonicalPath path = .ok path)
    (hbytes : host.readBytes path = .ok (Utf8.encode raw))
    (hreturn : Text.PairedReturns raw) (hbreak : Buffer.blockBreak ∉ raw) :
    ∃ loaded, editor.load host path = (loaded, .ok path)
      ∧ ∀ k ≤ loaded.sourceText.length, ∃ offset : Nat,
        host.describe loaded.pathText (.ok ⟨(k : Int) + 1, none⟩) (some loaded.sourceText)
            = .ok ⟨path, offset, none⟩
          ∧ (loaded.goTo (Position.lineAt (Utf8.encode raw) offset)
              (Position.columnAt (Utf8.encode raw) offset)).selection = ⟨(k : Int) + 1, none⟩ := by
  have hplain := hreturn.not_mem_unpair
  have hdouble : Text.contains "\r\r\n" raw = false := by
    rw [← Text.hasPair_unpair]
    exact Text.hasPair_of_no_return _ hplain
  have hshown : shown (Utf8.encode raw) = (Text.cells raw).map Text.cellChar := by
    rw [shown_of_paired raw hreturn hbreak, Text.unpair_eq_map]
  have hcells : (Text.cells raw).length = (shown (Utf8.encode raw)).length := by
    rw [hshown, List.length_map]
  refine ⟨_, load_canonical editor host path _ hpath hbytes, fun k hk => ?_⟩
  rw [ofFile_sourceText] at hk ⊢
  refine ⟨Text.byteLength ((Text.cells raw).take k).flatten, ?_, ?_⟩
  · change host.describe path _ _ = _
    rw [Host.describe_canonical host path _ _ _ hpath hbytes, Position.descriptor,
      Position.textOffset_cells raw _ k hcells hk]
  · have hsplit : raw = ((Text.cells raw).take k).flatten ++ ((Text.cells raw).drop k).flatten := by
      rw [← List.flatten_append, List.take_append_drop, Text.flatten_cells]
    have hplace := Position.place_encode ((Text.cells raw).take k).flatten
      ((Text.cells raw).drop k).flatten
    rw [← hsplit] at hplace
    have hfeeds := Text.feeds_flatten ((Text.cells raw).take k) fun cell hcell =>
      Text.cells_form raw cell (List.mem_of_mem_take hcell)
    rw [List.map_take, ← hshown] at hfeeds
    rw [hplace.1, hplace.2, hfeeds.1, hfeeds.2]
    exact goTo_character (ofFile path (Utf8.encode raw)) (Buffer.unbroken_ofText _) k hk

/-- A file of pairs and feeds, with characters of every width. -/
theorem offsets_lead_back_mixed :
    let raw : Text := "aé\r\n😀x\u2028€\n\r\n"
    let host := Host.holding "a.go" (Utf8.encode raw)
    ∃ loaded, empty.load host "/a.go" = (loaded, .ok "/a.go")
      ∧ ∀ k ≤ loaded.sourceText.length, ∃ offset : Nat,
        host.describe loaded.pathText (.ok ⟨(k : Int) + 1, none⟩) (some loaded.sourceText)
            = .ok ⟨"/a.go", offset, none⟩
          ∧ (loaded.goTo (Position.lineAt (Utf8.encode raw) offset)
              (Position.columnAt (Utf8.encode raw) offset)).selection = ⟨(k : Int) + 1, none⟩ := by
  intro raw host
  have hreturn : Text.PairedReturns raw := by
    intro k hk
    have hbound : ∀ k < raw.length, raw[k]? = some '\r' → raw[k + 1]? = some '\n' := by decide
    rcases List.getElem?_eq_some_iff.mp hk with ⟨hlt, _⟩
    exact hbound k hlt hk
  exact offsets_lead_back host empty "/a.go" raw rfl rfl hreturn (by decide)

end Editor

end QueryDesk
