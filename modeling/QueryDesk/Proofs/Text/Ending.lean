import QueryDesk.Proofs.Text.Cell
import QueryDesk.Proofs.Text.Utf8

/-!
# Texts written with an ending

A text without carriage returns is written with one of the two endings for each
line feed. Such a writing has one cell for each character of the text: a feed
gives the cell of the ending, and no other cell can arise, because the returns in
the writing are those of the endings. So the first characters of the text are the
first cells of the writing.

A text whose breaks are all kept in one ending is the writing of what it is read
as, with the ending it shows.

## Main definitions

* `Text.OneEnding`: A text whose line breaks are all kept in one ending.

## Theorems

* `withEnding_append`: The writing of two texts put together.
* `cells_withEnding`: One cell for each character.
* `flatten_take_cells_withEnding`: The first cells write the first characters.
* `unpair_eq_self_of_no_return`: A text without returns is read as it stands.
* `unpair_withEnding`: A text without returns is read back from its writing.
* `detect_withEnding`: The ending is read back, too, if there is a feed.
* `encode_withEnding_between`: The bytes of some characters of the writing.
* `withEnding_unpair`: A text of one ending is the writing of what it is read as.
-/

namespace QueryDesk

namespace Text

theorem withEnding_append (ending s t : Text) :
    withEnding ending (s ++ t) = withEnding ending s ++ withEnding ending t :=
  List.flatMap_append

theorem cells_cons (c : Char) (rest : Text) (h : c ≠ '\r') :
    cells (c :: rest) = [c] :: cells rest :=
  cells.eq_3 c rest fun _ hc _ => h hc

/-- A text without carriage returns has one cell for each character when it is
    written with an ending. -/
theorem cells_withEnding (ending : LineEnding) (t : Text) (h : '\r' ∉ t) :
    cells (withEnding ending.text t) = t.map fun c => if c = '\n' then ending.text else [c] := by
  induction t with
  | nil => rfl
  | cons c t ih =>
      have hrest := ih fun hmem => h (List.mem_cons_of_mem c hmem)
      rw [List.map_cons, ← hrest, withEnding, List.flatMap_cons]
      by_cases hfeed : c = '\n'
      · rw [if_pos hfeed]
        cases ending with
        | lf => exact cells_cons '\n' _ (by decide)
        | crlf => rfl
      · rw [if_neg hfeed]
        exact cells_cons c _ fun hc => h (hc ▸ List.mem_cons_self)

/-- The first cells of the writing are the writing of the first characters. -/
theorem flatten_take_cells_withEnding (ending : LineEnding) (t : Text) (k : Nat) (h : '\r' ∉ t) :
    ((cells (withEnding ending.text t)).take k).flatten = withEnding ending.text (t.take k) := by
  rw [cells_withEnding ending t h, ← List.map_take]
  rfl

theorem length_cells_withEnding (ending : LineEnding) (t : Text) (h : '\r' ∉ t) :
    (cells (withEnding ending.text t)).length = t.length := by
  rw [cells_withEnding ending t h, List.length_map]

theorem hasPair_of_no_return (t : Text) (h : '\r' ∉ t) : hasPair t = false := by
  fun_induction hasPair t with
  | case1 => rfl
  | case2 rest => exact absurd List.mem_cons_self h
  | case3 c rest _ ih => exact ih fun hmem => h (List.mem_cons_of_mem c hmem)

/-- A text without carriage returns is read as it stands. -/
theorem unpair_eq_self_of_no_return (t : Text) (h : '\r' ∉ t) : unpair t = t :=
  unpair_eq_self t (hasPair_of_no_return t h)

/-- A text without carriage returns is read back from what it is written as. -/
theorem unpair_withEnding (ending : LineEnding) (t : Text) (h : '\r' ∉ t) :
    unpair (withEnding ending.text t) = t := by
  rw [unpair_eq_map, cells_withEnding ending t h, List.map_map]
  refine (List.map_congr_left fun c _ => ?_).trans (List.map_id' t)
  change cellChar (if c = '\n' then ending.text else [c]) = c
  by_cases hfeed : c = '\n'
  · rw [if_pos hfeed, hfeed]
    cases ending <;> rfl
  · rw [if_neg hfeed]
    rfl

/-- Without a line feed no ending is written. -/
theorem withEnding_of_no_feed (ending t : Text) (h : '\n' ∉ t) : withEnding ending t = t := by
  have hself : ∀ c ∈ t, (if c = '\n' then ending else [c]) = [c] := by
    intro c hc
    refine if_neg fun hfeed => h ?_
    rwa [← hfeed]
  rw [withEnding, List.flatMap_def, List.map_congr_left hself, ← List.flatMap_def,
    List.flatMap_singleton']

theorem encode_withEnding_take (ending text : Text) (a b : Nat) (h : a ≤ b) :
    Utf8.encode (Text.withEnding ending (text.take b))
      = Utf8.encode (Text.withEnding ending (text.take a))
        ++ Utf8.encode (Text.withEnding ending ((text.take b).drop a)) := by
  have hfront : text.take a ++ (text.take b).drop a = text.take b := by
    have htake : (text.take b).take a = text.take a := by rw [List.take_take, Nat.min_eq_left h]
    rw [← htake, List.take_append_drop]
  rw [← Utf8.encode_append, ← Text.withEnding_append, hfront]

theorem length_encode_withEnding_mono (ending text : Text) (a b : Nat) (h : a ≤ b) :
    (Utf8.encode (Text.withEnding ending (text.take a))).length
      ≤ (Utf8.encode (Text.withEnding ending (text.take b))).length := by
  rw [encode_withEnding_take ending text a b h, List.length_append]
  exact Nat.le_add_right _ _

/-- The bytes of some characters in a text that is written with an ending. -/
theorem encode_withEnding_between (ending text : Text) (a b : Nat) (h : a ≤ b) :
    ((Utf8.encode (Text.withEnding ending text)).take
        (Utf8.encode (Text.withEnding ending (text.take b))).length).drop
          (Utf8.encode (Text.withEnding ending (text.take a))).length
      = Utf8.encode (Text.withEnding ending ((text.take b).drop a)) := by
  have hwhole : Utf8.encode (Text.withEnding ending text)
      = Utf8.encode (Text.withEnding ending (text.take b))
        ++ Utf8.encode (Text.withEnding ending (text.drop b)) := by
    rw [← Utf8.encode_append, ← Text.withEnding_append, List.take_append_drop]
  rw [hwhole, List.take_left, encode_withEnding_take ending text a b h, List.drop_left]

/-! ## Texts of one ending -/

/-- No carriage return of the text stands alone, and the line breaks are all feeds
    or all pairs. -/
structure OneEnding (raw : Text) : Prop where
  no_return : ['\r'] ∉ cells raw
  one : ['\n'] ∉ cells raw ∨ ['\r', '\n'] ∉ cells raw

theorem cells_form (t cell : Text) (h : cell ∈ cells t) :
    cell = ['\r', '\n'] ∨ ∃ c, cell = [c] := by
  fun_induction cells t with
  | case1 => exact absurd h List.not_mem_nil
  | case2 rest ih =>
      rcases List.mem_cons.mp h with rfl | h
      · exact Or.inl rfl
      · exact ih h
  | case3 c rest hpair ih =>
      rcases List.mem_cons.mp h with rfl | h
      · exact Or.inr ⟨c, rfl⟩
      · exact ih h

theorem hasPair_iff_mem_cells (t : Text) : hasPair t = true ↔ ['\r', '\n'] ∈ cells t := by
  fun_induction cells t with
  | case1 => exact iff_of_false Bool.false_ne_true List.not_mem_nil
  | case2 rest ih => exact iff_of_true rfl List.mem_cons_self
  | case3 c rest hpair ih =>
      rw [hasPair.eq_3 c rest hpair, ih, List.mem_cons]
      refine ⟨Or.inr, fun h => h.resolve_left fun heq => ?_⟩
      exact absurd (congrArg List.length heq)
        (by simp only [List.length_cons, List.length_nil]; decide)

/-- The ending that a writing shows is the one it was written with, if there is a
    line feed to show it. -/
theorem detect_withEnding (ending : LineEnding) (t : Text) (h : '\r' ∉ t) (hfeed : '\n' ∈ t) :
    LineEnding.detect (withEnding ending.text t) = ending := by
  have hpair : hasPair (withEnding ending.text t) = true ↔ ending = .crlf := by
    rw [hasPair_iff_mem_cells, cells_withEnding ending t h]
    constructor
    · intro hmem
      rcases List.mem_map.mp hmem with ⟨c, _, hcell⟩
      by_cases hc : c = '\n'
      · rw [if_pos hc] at hcell
        cases ending with
        | lf => exact absurd hcell (by decide)
        | crlf => rfl
      · rw [if_neg hc] at hcell
        exact absurd (congrArg List.length hcell)
          (by simp only [List.length_cons, List.length_nil]; decide)
    · rintro rfl
      exact List.mem_map.mpr ⟨'\n', hfeed, rfl⟩
  cases ending with
  | lf => exact if_neg fun hshown => absurd (hpair.mp hshown) (by decide)
  | crlf => exact if_pos (hpair.mpr rfl)

/-- A text of one ending is read as a text without returns, and is what that is
    written as with the ending the text shows. -/
theorem withEnding_unpair (raw : Text) (h : OneEnding raw) :
    '\r' ∉ unpair raw ∧ withEnding (LineEnding.detect raw).text (unpair raw) = raw := by
  rw [unpair_eq_map]
  constructor
  · intro hmem
    rcases List.mem_map.mp hmem with ⟨cell, hcell, hchar⟩
    rcases cells_form raw cell hcell with rfl | ⟨c, rfl⟩
    · exact absurd hchar (by decide)
    · have hc : c = '\r' := hchar
      rw [hc] at hcell
      exact h.no_return hcell
  · -- Cell by cell: a pair shows that the ending is one, and a feed that it is none.
    have hcell : ∀ cell ∈ cells raw,
        (if cellChar cell = '\n' then (LineEnding.detect raw).text else [cellChar cell])
          = cell := by
      intro cell hmem
      rcases cells_form raw cell hmem with rfl | ⟨c, rfl⟩
      · rw [if_pos (by decide), LineEnding.detect, if_pos ((hasPair_iff_mem_cells raw).mpr hmem)]
        rfl
      · have hchar : cellChar [c] = c := rfl
        rw [hchar]
        by_cases hfeed : c = '\n'
        · rw [hfeed] at hmem
          have hpair : ¬ hasPair raw = true := fun hpair =>
            h.one.elim (fun hone => hone hmem) fun hone =>
              hone ((hasPair_iff_mem_cells raw).mp hpair)
          rw [if_pos hfeed, LineEnding.detect, if_neg hpair, hfeed]
          rfl
        · rw [if_neg hfeed]
    have hflat : withEnding (LineEnding.detect raw).text ((cells raw).map cellChar)
        = (cells raw).flatten := by
      rw [withEnding, List.flatMap_map, List.flatMap_def]
      congr 1
      exact (List.map_congr_left hcell).trans (List.map_id' _)
    rw [hflat, flatten_cells]

end Text

end QueryDesk
