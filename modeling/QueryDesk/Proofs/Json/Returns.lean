import QueryDesk.Proofs.Json.Written
import QueryDesk.Proofs.Text.Split

/-!
# Written values hold no carriage return

The text of a value goes to a file as bytes and comes back as a text in which every
line end is a feed. That would make a difference to a text that holds a carriage
return, and a written value holds none: it is escaped inside of quotes, and a word
or a number that is read to its end cannot have one.

## Theorems

* `not_mem_of_readScalar`: A word or a number holds no carriage return.
* `return_not_mem_escape`: A text between quotes holds none.
* `return_not_mem_printAt`: No carriage return is written.
-/

namespace QueryDesk

namespace Json

/-! ## Words and numbers -/

-- Where the reader goes past digits, it leaves a carriage return behind.
theorem mem_dropWhile_isDigit {t : Text} (h : '\r' ∈ t) : '\r' ∈ t.dropWhile isDigit := by
  rw [← List.takeWhile_append_dropWhile (p := isDigit) (l := t)] at h
  rcases List.mem_append.mp h with h | h
  · exact absurd (List.mem_takeWhile_imp h) (by decide)
  · exact h

theorem mem_of_integerPart? {t whole after : Text} (h : integerPart? t = some (whole, after))
    (hmem : '\r' ∈ t) : '\r' ∈ after := by
  cases t with
  | nil => exact absurd hmem List.not_mem_nil
  | cons c t =>
      rw [integerPart?] at h
      split at h
      · next hzero =>
          rw [hzero] at hmem
          rw [← (Prod.mk.inj (Option.some.inj h)).2]
          exact (List.mem_cons.mp hmem).resolve_left (by decide)
      split at h
      · rw [← (Prod.mk.inj (Option.some.inj h)).2]
        exact mem_dropWhile_isDigit hmem
      · exact absurd h (Option.some_ne_none _).symm

theorem mem_fractionPart {t : Text} (hmem : '\r' ∈ t) : '\r' ∈ (fractionPart t).2 := by
  unfold fractionPart
  split
  · split
    · exact hmem
    · exact mem_dropWhile_isDigit ((List.mem_cons.mp hmem).resolve_left (by decide))
  · exact hmem

theorem mem_exponentPart {t : Text} (hmem : '\r' ∈ t) : '\r' ∈ (exponentPart t).2 := by
  cases t with
  | nil => exact hmem
  | cons e t =>
      rw [exponentPart_cons]
      split
      · next he =>
          have hrest : '\r' ∈ t := by
            refine (List.mem_cons.mp hmem).resolve_left fun heq => ?_
            rw [← heq] at he
            exact absurd he (by decide)
          have hsign : '\r' ∈ (exponentSign t).2 := by
            unfold exponentSign
            split
            · exact (List.mem_cons.mp hrest).resolve_left (by decide)
            · exact (List.mem_cons.mp hrest).resolve_left (by decide)
            · exact hrest
          split
          · exact hmem
          · exact mem_dropWhile_isDigit hsign
      · exact hmem

theorem mem_of_readMagnitude {opened : Nat} {negative : Bool} {t after : Text} {value : Json}
    (h : readMagnitude opened negative t = .ok (value, after)) (hmem : '\r' ∈ t) :
    '\r' ∈ after := by
  unfold readMagnitude at h
  split at h
  · exact absurd h (by simp only [reduceCtorEq, not_false_eq_true])
  next whole digits hwhole =>
  have hrest := mem_exponentPart (mem_fractionPart (mem_of_integerPart? hwhole hmem))
  simp only at h
  split at h
  · split at h
    · rw [← (Prod.mk.inj (Except.ok.inj h)).2]
      exact hrest
    · exact absurd h (by simp only [reduceCtorEq, not_false_eq_true])
  · rw [← (Prod.mk.inj (Except.ok.inj h)).2]
    exact hrest

/-- A word or a number that is read to its end holds no carriage return. -/
theorem not_mem_of_readScalar {t : Text} {value : Json} (h : readScalar t = .ok (value, [])) :
    '\r' ∉ t := by
  have hwords : ∀ word ∈ constants.map (·.1), '\r' ∉ word := by decide
  intro hmem
  unfold readScalar at h
  split at h
  · next word _ heq =>
      have hmatch := List.find?_some heq
      rcases List.isPrefixOf_iff_prefix.mp hmatch with ⟨rest, rfl⟩
      rw [List.drop_left] at h
      rw [(Prod.mk.inj (Except.ok.inj h)).2, List.append_nil] at hmem
      exact hwords word (List.mem_map_of_mem (List.mem_of_find?_eq_some heq)) hmem
  · unfold readNumber at h
    split at h
    · exact absurd (mem_of_readMagnitude h ((List.mem_cons.mp hmem).resolve_left (by decide)))
        List.not_mem_nil
    · exact absurd (mem_of_readMagnitude h hmem) List.not_mem_nil

/-! ## Texts -/

theorem return_not_mem_unitEscape {n : Nat} (h : n < 0x10000) : '\r' ∉ unitEscape n := by
  have hdigit : ∀ d < 16, '\r' ≠ d.digitChar := by decide
  rw [unitEscape, hex_four n h]
  simp only [List.mem_cons, List.not_mem_nil, or_false, not_or]
  exact ⟨by decide, by decide, hdigit _ (by omega), hdigit _ (by omega), hdigit _ (by omega),
    hdigit _ (by omega)⟩

theorem return_not_mem_escapeChar (c : Char) : '\r' ∉ escapeChar c := by
  have hbound := Unpaired.code_lt c
  unfold escapeChar
  simp only
  split
  · next hmark =>
      rw [Bool.or_eq_true, decide_eq_true_eq, decide_eq_true_eq] at hmark
      rcases hmark with rfl | rfl <;> decide
  split
  · decide
  split
  · decide
  split
  · decide
  split
  · decide
  split
  · decide
  split
  · next _ hreturn _ _ _ _ =>
      rw [List.mem_singleton]
      exact fun heq => hreturn heq.symm
  split
  · next hone => exact return_not_mem_unitEscape hone
  · rw [List.mem_append, not_or]
    exact ⟨return_not_mem_unitEscape (by omega), return_not_mem_unitEscape (by omega)⟩

theorem return_not_mem_escape (t : Text) : '\r' ∉ escape t := by
  rw [escape, List.mem_append, List.mem_cons, List.mem_flatMap, not_or, not_or]
  refine ⟨⟨by decide, ?_⟩, by decide⟩
  rintro ⟨c, _, hc⟩
  exact return_not_mem_escapeChar c hc

/-! ## Values -/

theorem return_not_mem_newLine (depth : Nat) : '\r' ∉ newLine depth := by
  rw [newLine, List.mem_cons, not_or]
  exact ⟨by decide, fun h => absurd (List.eq_of_mem_replicate h) (by decide)⟩

theorem return_not_mem_bracketed (depth : Nat) {opening closing : Char} {parts : List Text}
    (hopening : '\r' ≠ opening) (hclosing : '\r' ≠ closing) (h : ∀ part ∈ parts, '\r' ∉ part) :
    '\r' ∉ bracketed depth opening closing parts := by
  cases parts with
  | nil =>
      rw [bracketed]
      simp only [List.isEmpty_nil, if_true, List.mem_cons, List.not_mem_nil, or_false, not_or]
      exact ⟨hopening, hclosing⟩
  | cons part parts =>
      have hlines := bracketed_append depth opening closing (List.cons_ne_nil part parts) []
      rw [List.append_nil] at hlines
      rw [hlines, linesTo, List.mem_cons, List.mem_append, List.mem_append, List.mem_append,
        List.mem_singleton, not_or, not_or, not_or, not_or]
      refine ⟨hopening, return_not_mem_newLine _, fun hmem => ?_, return_not_mem_newLine _,
        hclosing⟩
      rcases Text.mem_join _ _ _ hmem with hsep | ⟨other, hother, hc⟩
      · rcases List.mem_cons.mp hsep with hcomma | hline
        · exact absurd hcomma (by decide)
        · exact return_not_mem_newLine _ hline
      · exact h other hother hc

/-- No carriage return is written. -/
theorem return_not_mem_printAt {value : Json} (h : value.Faithful) (depth : Nat) :
    '\r' ∉ printAt depth value := by
  induction h generalizing depth with
  | null =>
      exact not_mem_of_readScalar (show readScalar (printAt depth .null) = .ok (.null, []) from rfl)
  | bool b =>
      refine not_mem_of_readScalar
        (show readScalar (printAt depth (.bool b)) = .ok (.bool b, []) from ?_)
      cases b <;> rfl
  | int n =>
      have hdigits : ∀ n, '\r' ∉ Text.ofNat n := fun n hmem =>
        absurd (isDigit_of_mem_ofNat hmem) (by decide)
      cases n with
      | ofNat n => exact hdigits n
      | negSucc n =>
          rw [printAt, Text.ofInt, List.mem_cons, not_or]
          exact ⟨by decide, hdigits (n + 1)⟩
  | float x back => exact not_mem_of_readScalar back
  | str t _ => exact return_not_mem_escape t
  | arr items _ ih =>
      rw [printAt_arr]
      refine return_not_mem_bracketed depth (by decide) (by decide) ?_
      exact List.forall_mem_map.mpr fun item hmem => ih item hmem (depth + 1)
  | obj fields _ _ ih =>
      rw [printAt_obj]
      refine return_not_mem_bracketed depth (by decide) (by decide) ?_
      refine List.forall_mem_map.mpr fun field hmem => ?_
      rw [(sortByKey_perm fields).mem_iff] at hmem
      rw [fieldText, List.mem_append, List.mem_append, not_or, not_or]
      exact ⟨⟨return_not_mem_escape _, by decide⟩, ih field hmem (depth + 1)⟩

theorem return_not_mem_print {value : Json} (h : value.Faithful) : '\r' ∉ value.print :=
  return_not_mem_printAt h 0

end Json

end QueryDesk
