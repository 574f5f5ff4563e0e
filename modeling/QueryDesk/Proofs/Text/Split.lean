import Mathlib.Data.List.DropRight
import QueryDesk.Text.Basic

/-!
# Texts in parts

The parts of a text between separators are those of the list library, so what is
known there about cutting and joining holds here.

A position in a text is in the part that has as many parts before it as there are
separators before the position, and as far into that part as there are characters
since the last separator.

## Main definitions

* `Text.lastPart`: What comes after the last separator.

## Theorems

* `splitOn_eq`: The parts are those of the list library.
* `splitOn_append`: The parts around a separator.
* `splitOn_append_left`: The parts around a position.
* `splitOn_front`, `splitOn_back`: The parts of a text with more before or after it.
* `splitOn_join`: Parts without separators are found again.
* `append_cons_inj`: What stands on the two sides of the last separator.
* `join_splitOn`, `join_append`: A text put together of its parts.
* `not_mem_of_mem_splitOn`: No part holds a separator.
* `mem_of_mem_splitOn`, `mem_join`: Cutting and joining bring in no characters.
-/

namespace QueryDesk

namespace Text

theorem pieces_eq_splitOnP (p : Char → Bool) (t : Text) : pieces p t = List.splitOnP p t := by
  induction t with
  | nil => rfl
  | cons c t ih =>
      rw [pieces, ih, List.splitOnP_cons_eq_if_modifyHead]
      by_cases hc : p c = true
      · rw [if_pos hc, if_pos hc]
      · rw [if_neg hc, if_neg hc]
        cases hparts : List.splitOnP p t with
        | nil => exact absurd hparts (List.splitOnP_ne_nil p t)
        | cons part parts => rfl

/-- The parts are those of the list library. -/
theorem splitOn_eq (sep : Char) (t : Text) : splitOn sep t = List.splitOn sep t :=
  pieces_eq_splitOnP (· == sep) t

/-- The parts around a separator. -/
theorem splitOn_append (sep : Char) (s t : Text) :
    splitOn sep (s ++ sep :: t) = splitOn sep s ++ splitOn sep t := by
  rw [splitOn_eq, splitOn_eq, splitOn_eq, List.splitOn_append_cons_self]

/-- Parts without separators are found again. -/
theorem splitOn_join (sep : Char) (parts : List Text) (hne : parts ≠ [])
    (h : ∀ part ∈ parts, sep ∉ part) : splitOn sep (join [sep] parts) = parts := by
  rw [splitOn_eq]
  exact List.splitOn_intercalate sep h hne

/-- The parts of a text put together are the text. -/
theorem join_splitOn (sep : Char) (t : Text) : join [sep] (splitOn sep t) = t := by
  rw [splitOn_eq]
  exact List.intercalate_splitOn sep

/-- Before a part stand the parts before it, each with a separator after it. -/
theorem join_append (sep : Char) (front : List Text) (part : Text) (back : List Text) :
    join [sep] (front ++ part :: back)
      = front.flatMap (· ++ [sep]) ++ join [sep] (part :: back) := by
  induction front with
  | nil => rfl
  | cons first front ih =>
      have hrest : front ++ part :: back ≠ [] :=
        List.append_ne_nil_of_right_ne_nil front (List.cons_ne_nil part back)
      rcases List.exists_cons_of_ne_nil hrest with ⟨second, more, hmore⟩
      rw [List.flatMap_cons, List.append_assoc, ← ih, List.cons_append, hmore, join,
        List.intercalate_cons_cons]
      rfl

/-- No part holds a separator. -/
theorem not_mem_of_mem_splitOn (sep : Char) (t part : Text) (h : part ∈ splitOn sep t) :
    sep ∉ part := by
  induction t generalizing part with
  | nil =>
      rw [List.mem_singleton.mp h]
      exact List.not_mem_nil
  | cons c t ih =>
      rw [splitOn_eq, List.splitOn_cons_eq_if_modifyHead, ← splitOn_eq] at h
      by_cases hc : (c == sep) = true
      · rw [if_pos hc] at h
        rcases List.mem_cons.mp h with rfl | h
        · exact List.not_mem_nil
        · exact ih part h
      · rw [if_neg hc] at h
        -- A character that is no separator is put before the first part of the rest.
        cases hparts : splitOn sep t with
        | nil =>
            rw [hparts] at h
            exact absurd h List.not_mem_nil
        | cons first more =>
            rw [hparts, List.modifyHead_cons] at h
            rcases List.mem_cons.mp h with rfl | h
            · intro hmem
              rcases List.mem_cons.mp hmem with hsep | hmem
              · exact hc (beq_iff_eq.mpr hsep.symm)
              · exact ih first (hparts ▸ List.mem_cons_self) hmem
            · exact ih part (hparts ▸ List.mem_cons_of_mem first h)

/-- The parts of a text hold its characters only. -/
theorem mem_of_mem_splitOn (sep c : Char) (t part : Text) (hpart : part ∈ splitOn sep t)
    (hc : c ∈ part) : c ∈ t := by
  induction t generalizing part with
  | nil =>
      rw [List.mem_singleton.mp hpart] at hc
      exact absurd hc List.not_mem_nil
  | cons d t ih =>
      rw [splitOn_eq, List.splitOn_cons_eq_if_modifyHead, ← splitOn_eq] at hpart
      by_cases hd : (d == sep) = true
      · rw [if_pos hd] at hpart
        rcases List.mem_cons.mp hpart with rfl | hpart
        · exact absurd hc List.not_mem_nil
        · exact List.mem_cons_of_mem d (ih part hpart hc)
      · rw [if_neg hd] at hpart
        cases hparts : splitOn sep t with
        | nil =>
            rw [hparts] at hpart
            exact absurd hpart List.not_mem_nil
        | cons first more =>
            rw [hparts, List.modifyHead_cons] at hpart
            rcases List.mem_cons.mp hpart with rfl | hpart
            · rcases List.mem_cons.mp hc with rfl | hc
              · exact List.mem_cons_self
              · exact List.mem_cons_of_mem d (ih first (hparts ▸ List.mem_cons_self) hc)
            · exact List.mem_cons_of_mem d (ih part (hparts ▸ List.mem_cons_of_mem first hpart) hc)

-- Parts put together begin as the first one does.
theorem join_cons (sep c : Char) (more : Text) (parts : List Text) :
    ∃ tail, join [sep] ((c :: more) :: parts) = c :: tail := by
  cases parts with
  | nil => exact ⟨more, List.intercalate_singleton⟩
  | cons second rest => exact ⟨_, by rw [join, List.intercalate_cons_cons]; rfl⟩

/-- Parts put together hold their characters and separators only. -/
theorem mem_join (sep : Text) (c : Char) (parts : List Text) (h : c ∈ join sep parts) :
    c ∈ sep ∨ ∃ part ∈ parts, c ∈ part := by
  induction parts with
  | nil => exact absurd h List.not_mem_nil
  | cons part parts ih =>
      cases parts with
      | nil =>
          rw [join, List.intercalate_singleton] at h
          exact Or.inr ⟨part, List.mem_singleton_self part, h⟩
      | cons second more =>
          rw [join, List.intercalate_cons_cons] at h
          rcases List.mem_append.mp h with h | h
          · rcases List.mem_append.mp h with h | h
            · exact Or.inr ⟨part, List.mem_cons_self, h⟩
            · exact Or.inl h
          · rcases ih h with hsep | ⟨other, hother, hc⟩
            · exact Or.inl hsep
            · exact Or.inr ⟨other, List.mem_cons_of_mem part hother, hc⟩

/-! ## The part a position is in -/

section LastPart

variable {α : Type} [DecidableEq α]

/-- The items after the last separator, or all of them when there is none. -/
def lastPart (sep : α) (items : List α) : List α :=
  items.rtakeWhile (· != sep)

theorem lastPart_concat_self (sep : α) (items : List α) : lastPart sep (items ++ [sep]) = [] :=
  List.rtakeWhile_concat_neg _ _ _ (by rw [bne_self_eq_false]; exact Bool.false_ne_true)

theorem lastPart_concat_of_ne {sep item : α} (h : item ≠ sep) (items : List α) :
    lastPart sep (items ++ [item]) = lastPart sep items ++ [item] :=
  List.rtakeWhile_concat_pos _ _ _ (bne_iff_ne.mpr h)

theorem lastPart_append {sep : α} (items more : List α) (h : sep ∉ more) :
    lastPart sep (items ++ more) = lastPart sep items ++ more := by
  induction more using List.reverseRecOn with
  | nil => rw [List.append_nil, List.append_nil]
  | append_singleton more item ih =>
      rw [List.mem_append, not_or, List.mem_singleton] at h
      rw [← List.append_assoc, lastPart_concat_of_ne (Ne.symm h.2), ih h.1, List.append_assoc]

theorem lastPart_append_cons {sep : α} (front : List α) {back : List α} (h : sep ∉ back) :
    lastPart sep (front ++ sep :: back) = back := by
  rw [List.append_cons, lastPart_append _ _ h, lastPart_concat_self, List.nil_append]

/-- There is one way only to cut at the last separator. -/
theorem append_cons_inj {sep : α} {front other back rest : List α} (hback : sep ∉ back)
    (hrest : sep ∉ rest) (h : front ++ sep :: back = other ++ sep :: rest) :
    front = other ∧ back = rest := by
  have hlast : back = rest := by
    rw [← lastPart_append_cons front hback, h, lastPart_append_cons other hrest]
  rw [hlast] at h
  exact ⟨List.append_cancel_right h, hlast⟩

end LastPart

/-- The parts around a position. There are as many parts before it as separators, and
    the part it is in is cut after the last of them. -/
theorem splitOn_append_left (sep : Char) (s : Text) :
    ∃ before : List Text, before.length = s.count sep
      ∧ before.flatMap (· ++ [sep]) ++ lastPart sep s = s
      ∧ ∀ t rest after, splitOn sep t = rest :: after →
        splitOn sep (s ++ t) = before ++ (lastPart sep s ++ rest) :: after := by
  -- Along the characters before the position, from its end: the last one goes over to the text
  -- after it, where it begins a part or starts one anew.
  induction s using List.reverseRecOn with
  | nil => exact ⟨[], rfl, rfl, fun t rest after h => h⟩
  | append_singleton s c ih =>
      rcases ih with ⟨before, hlength, hwhole, hsplit⟩
      by_cases hc : c = sep
      · subst hc
        refine ⟨before ++ [lastPart c s], ?_, ?_, fun t rest after h => ?_⟩
        · rw [List.length_append, hlength, List.count_append, List.count_singleton_self]
          rfl
        · rw [lastPart_concat_self, List.flatMap_append, List.flatMap_singleton,
            ← List.append_assoc, hwhole, List.append_nil]
        · have hnext : splitOn c (c :: t) = [] :: rest :: after := by
            rw [← h, splitOn, pieces, if_pos (beq_self_eq_true c)]
            rfl
          rw [List.append_assoc, List.singleton_append, hsplit _ _ _ hnext, List.append_nil,
            lastPart_concat_self, List.append_assoc]
          rfl
      · refine ⟨before, ?_, ?_, fun t rest after h => ?_⟩
        · rw [hlength, List.count_append, List.count_singleton, if_neg (beq_iff_eq.not.mpr hc)]
          rfl
        · rw [lastPart_concat_of_ne hc, ← List.append_assoc, hwhole]
        · have hnext : splitOn sep (c :: t) = (c :: rest) :: after := by
            have hpieces : pieces (· == sep) t = rest :: after := h
            rw [splitOn, pieces, if_neg (beq_iff_eq.not.mpr hc), hpieces]
          rw [List.append_assoc, List.singleton_append, hsplit _ _ _ hnext,
            lastPart_concat_of_ne hc, List.append_assoc]
          rfl

/-- A text without separators is one part. -/
theorem splitOn_of_not_mem {sep : Char} {t : Text} (h : sep ∉ t) : splitOn sep t = [t] := by
  have hjoin := splitOn_join sep [t] (List.cons_ne_nil _ _) (List.forall_mem_singleton.mpr h)
  rwa [join, List.intercalate_singleton] at hjoin

/-- What is put before a text, and holds no separator, goes to its first part. -/
theorem splitOn_front {sep : Char} {front t first : Text} {parts : List Text} (h : sep ∉ front)
    (ht : splitOn sep t = first :: parts) :
    splitOn sep (front ++ t) = (front ++ first) :: parts := by
  rcases splitOn_append_left sep front with ⟨before, hlength, hwhole, hsplit⟩
  rw [List.count_eq_zero.mpr h] at hlength
  rw [List.eq_nil_of_length_eq_zero hlength] at hwhole hsplit
  have hlast : lastPart sep front = front := hwhole
  rw [hsplit t first parts ht, hlast]
  rfl

/-- What is put after a text, and holds no separator, goes to its last part. -/
theorem splitOn_back {sep : Char} {back : Text} (h : sep ∉ back) (t : Text) :
    ∃ parts, splitOn sep t = parts ++ [lastPart sep t]
      ∧ splitOn sep (t ++ back) = parts ++ [lastPart sep t ++ back] := by
  rcases splitOn_append_left sep t with ⟨before, -, -, hsplit⟩
  refine ⟨before, ?_, hsplit back back [] (splitOn_of_not_mem h)⟩
  have hself := hsplit [] [] [] (splitOn_of_not_mem List.not_mem_nil)
  rwa [List.append_nil, List.append_nil] at hself

end Text

end QueryDesk
