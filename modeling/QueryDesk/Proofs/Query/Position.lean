import QueryDesk.Proofs.Host.Resolve
import QueryDesk.Proofs.Text.Cell
import QueryDesk.Proofs.Text.Utf8

/-!
# Offsets in a file that was encoded

A file that holds the bytes of a text is measured over the cells of that text.
When the editor has as many characters as there are cells, the offset of a
position is what the cells before it take. The ends of a range are told in the
order of their offsets, which is the order of their positions because offsets
only grow.

## Theorems

* `diskWidths_encode`: The characters on disk are the cells of the text.
* `textOffset_cells`: An offset in a file with one cell for each character.
* `textOffset_apart`: An offset when the counts differ.
* `descriptor_ofBounds`: The descriptor between two characters.
* `describe_path`: A descriptor has the canonical path.
* `describe_text`: Describing a selection in a file that can be read.
* `describe_canonical`: The same by the path that is the file's own canonical path.
-/

namespace QueryDesk

namespace Position

theorem diskChars_encode (t : Text) : diskChars (Utf8.encode t) = t.map some := by
  unfold diskChars
  rw [Utf8.segments_encode, List.flatMap_map]
  exact (List.map_eq_flatMap).symm

/-- The characters on disk are the cells of the text. -/
theorem diskWidths_encode (t : Text) :
    diskWidths (Utf8.encode t) = (Text.cells t).map Text.byteLength := by
  unfold diskWidths
  rw [diskChars_encode, Text.pairedWidths_eq_map]

theorem index_succ (count k : Nat) (h : k ≤ count) : index count ((k : Int) + 1) = k := by
  have hback : ((k : Int) + 1 - 1).toNat = k := by omega
  rw [index, hback, Nat.min_eq_left h]

/-- The offset of a position when the file has one cell for each character of
    the editor. -/
theorem textOffset_cells (raw text : Text) (k : Nat)
    (hlength : (Text.cells raw).length = text.length) (hk : k ≤ text.length) :
    textOffset (some (diskWidths (Utf8.encode raw))) text ((k : Int) + 1)
      = Text.byteLength ((Text.cells raw).take k).flatten := by
  have hcount : (diskWidths (Utf8.encode raw)).length = text.length := by
    rw [diskWidths_encode, List.length_map, hlength]
  simp only [textOffset, hcount, if_true]
  rw [widthOffset, hcount, index_succ text.length k hk, diskWidths, diskChars_encode,
    Text.total_take_pairedWidths]

/-- The offset of a position when the file and the editor have different counts
    of characters: the editor's text is measured. -/
theorem textOffset_apart (raw text : Text) (k : Nat)
    (hlength : (Text.cells raw).length ≠ text.length) (hk : k ≤ text.length) :
    textOffset (some (diskWidths (Utf8.encode raw))) text ((k : Int) + 1)
      = Text.byteLength (text.take k) := by
  have hcount : ¬ (diskWidths (Utf8.encode raw)).length = text.length := by
    rw [diskWidths_encode, List.length_map]
    exact hlength
  simp only [textOffset, if_neg hcount]
  rw [byteOffset, index_succ text.length k hk]

/-- The descriptor between two characters: the offset of the lesser one, and that
    of the greater one unless they are the same. -/
theorem descriptor_ofBounds (path : Text) (offset : Int → Nat) (a b : Nat)
    (hmono : offset (((min a b : Nat) : Int) + 1) ≤ offset (((max a b : Nat) : Int) + 1)) :
    descriptor path offset (.ofBounds ((a : Int) + 1) ((b : Int) + 1))
      = ⟨path, offset (((min a b : Nat) : Int) + 1),
          if a = b then none else some (offset (((max a b : Nat) : Int) + 1) : Int)⟩ := by
  by_cases hab : a = b
  · rw [hab, if_pos rfl, Nat.min_self, Selection.ofBounds, if_pos rfl]
    rfl
  · have hne : ¬ (a : Int) + 1 = (b : Int) + 1 := by omega
    have hmin : min ((a : Int) + 1) ((b : Int) + 1) = ((min a b : Nat) : Int) + 1 := by omega
    have hmax : max ((a : Int) + 1) ((b : Int) + 1) = ((max a b : Nat) : Int) + 1 := by omega
    rw [if_neg hab, Selection.ofBounds, if_neg hne, hmin, hmax]
    simp only [descriptor, Nat.min_eq_left hmono, Nat.max_eq_right hmono]

end Position

namespace Host

theorem readBytes_ne_nil (host : Host) (path : Text) (bytes : Bytes)
    (h : host.readBytes path = .ok bytes) : path ≠ [] := by
  rintro rfl
  exact absurd h (by
    simp only [readBytes, FileTree.readBytes, FileTree.find, FileTree.walk, List.elem_nil,
      Bool.false_eq_true, if_false, List.isEmpty_nil, if_true, reduceCtorEq, not_false_eq_true])

theorem descriptor_path (path : Text) (offset : Int → Nat) (selection : Selection) :
    (Position.descriptor path offset selection).path = path := by
  unfold Position.descriptor
  split <;> rfl

/-- The path of a descriptor is the canonical path of the one asked about. -/
theorem describe_path (host : Host) (path : Text) (selection : Except Failure Selection)
    (text : Option Text) (position : Descriptor)
    (h : host.describe path selection text = .ok position) :
    host.canonicalPath path = .ok position.path := by
  unfold describe at h
  cases hmeasure : host.measure path text with
  | error failure =>
      rw [hmeasure] at h
      exact absurd h (by simp only [reduceCtorEq, not_false_eq_true])
  | ok measured =>
      rcases measured with ⟨found, offset⟩
      have hfound : host.canonicalPath path = .ok found := by
        unfold measure at hmeasure
        -- Whatever is measured, the file or the text, the path is the canonical one.
        cases hcanonical : host.canonicalPath path with
        | error failure =>
            rw [hcanonical] at hmeasure
            exact absurd hmeasure (by simp only [reduceCtorEq, not_false_eq_true])
        | ok canonical =>
            rw [hcanonical] at hmeasure
            simp only at hmeasure
            split at hmeasure <;> split at hmeasure
            · exact absurd hmeasure (by simp only [reduceCtorEq, not_false_eq_true])
            · rw [(Prod.mk.inj (Except.ok.inj hmeasure)).1]
            · exact absurd hmeasure (by simp only [reduceCtorEq, not_false_eq_true])
            · rw [(Prod.mk.inj (Except.ok.inj hmeasure)).1]
      cases selection with
      | error failure =>
          rw [hmeasure] at h
          exact absurd h (by simp only [Except.map, reduceCtorEq, not_false_eq_true])
      | ok selection =>
          rw [hmeasure] at h
          rw [hfound, ← Except.ok.inj h, descriptor_path]

/-- Describing a selection of a text in a file that can be read. -/
theorem describe_text (host : Host) (path real : Text) (selection : Selection) (bytes : Bytes)
    (text : Text) (hpath : host.canonicalPath path = .ok real)
    (hbytes : host.readBytes (FilePath.parse real).text = .ok bytes) :
    host.describe path (.ok selection) (some text)
      = .ok (Position.descriptor real
          (Position.textOffset (some (Position.diskWidths bytes)) text) selection) := by
  have hwidths : host.charWidths real = .ok (some (Position.diskWidths bytes)) := by
    unfold charWidths
    rw [hbytes]
  simp only [describe, measure, hpath, hwidths]
  rfl

/-- Describing a selection of a text in a file that can be read, by the path that
    is the file's own canonical path. -/
theorem describe_canonical (host : Host) (path text : Text) (selection : Selection) (bytes : Bytes)
    (hpath : host.canonicalPath path = .ok path) (hbytes : host.readBytes path = .ok bytes) :
    host.describe path (.ok selection) (some text)
      = .ok (Position.descriptor path
          (Position.textOffset (some (Position.diskWidths bytes)) text) selection) := by
  have hnormal := normal_of_canonicalPath host path hpath (readBytes_ne_nil host path bytes hbytes)
  exact describe_text host path path selection bytes text hpath (by rw [hnormal.parse_text, hbytes])

end Host

end QueryDesk
