import Mathlib.Data.List.DropRight
import QueryDesk.Text.Basic

/-!
# Trimmed texts

Trimming leaves a text that begins with no blank, and takes nothing from the
start of one that begins with none already.

## Theorems

* `trim_cons`: A text that begins with no blank keeps its start.
* `trim_bounded`: A text between characters that are no blanks has nothing to trim.
* `isBlank_head_trim`: A trimmed text begins with no blank.
* `trim_trim`: A trimmed text has nothing to trim.
* `trim_eq_nil_iff`: Trimming leaves nothing of a text of blanks only.
* `trim_between`: A text is what trimming leaves, with blanks around it.
* `trim_sublist`: Trimming only takes characters away.
* `trim_front`, `trim_back`: Blanks around a text make no difference.
-/

namespace QueryDesk

namespace Text

/-- A text that begins with no blank keeps its start. -/
theorem trim_cons (c : Char) (rest : Text) (h : isBlank c = false) :
    ∃ more, trim (c :: rest) = c :: more := by
  have hfront : ¬ isBlank c = true := by
    rw [h]
    exact Bool.false_ne_true
  have hback : (rest.reverse ++ [c]).dropWhile isBlank
      = rest.reverse.dropWhile isBlank ++ [c] := by
    rw [List.dropWhile_append]
    split
    · next hblank =>
        rw [List.isEmpty_iff.mp hblank, List.dropWhile_cons_of_neg hfront]
        rfl
    · rfl
  refine ⟨(rest.reverse.dropWhile isBlank).reverse, ?_⟩
  rw [trim, trimBy, List.dropWhile_cons_of_neg hfront, List.reverse_cons, hback,
    List.reverse_append]
  rfl

/-- A text between two characters that are no blanks has nothing to trim. -/
theorem trim_bounded (c : Char) (middle : Text) (d : Char) (hc : isBlank c = false)
    (hd : isBlank d = false) : trim (c :: (middle ++ [d])) = c :: (middle ++ [d]) := by
  rw [trim, trimBy, List.dropWhile_cons_of_neg (by rw [hc]; exact Bool.false_ne_true),
    ← List.cons_append, List.reverse_concat,
    List.dropWhile_cons_of_neg (by rw [hd]; exact Bool.false_ne_true), List.reverse_cons,
    List.reverse_reverse]

-- The blanks at the start of a text are dropped up to a character that is none, and trimming
-- begins there.
theorem trim_of_dropWhile {t rest : Text} {c : Char} (h : t.dropWhile isBlank = c :: rest) :
    isBlank c = false ∧ trim t = trim (c :: rest) := by
  have hc : isBlank c = false := by
    have hhead := List.head?_dropWhile_not isBlank t
    rw [h] at hhead
    simpa only [List.head?_cons, Bool.not_eq_true] using hhead
  refine ⟨hc, ?_⟩
  rw [trim, trim, trimBy, trimBy, h,
    List.dropWhile_cons_of_neg (by rw [hc]; exact Bool.false_ne_true)]

/-- A trimmed text begins with no blank. -/
theorem isBlank_head_trim (t : Text) (c : Char) (rest : Text) (h : trim t = c :: rest) :
    isBlank c = false := by
  cases hfront : t.dropWhile isBlank with
  | nil =>
      rw [trim, trimBy, hfront] at h
      exact absurd h (List.cons_ne_nil c rest).symm
  | cons d tail =>
      rcases trim_of_dropWhile hfront with ⟨hd, hkeep⟩
      rcases trim_cons d tail hd with ⟨more, hmore⟩
      rw [hkeep, hmore] at h
      rw [← (List.cons.inj h).1, hd]

/-- A trimmed text has nothing to trim. -/
theorem trim_trim (t : Text) : trim (trim t) = trim t := by
  cases htrim : trim t with
  | nil => rfl
  | cons c rest =>
      have hfront : ¬ isBlank c = true := by
        rw [isBlank_head_trim t c rest htrim]
        exact Bool.false_ne_true
      rw [trim, trimBy, List.dropWhile_cons_of_neg hfront, ← htrim]
      exact List.rdropWhile_idempotent isBlank (t.dropWhile isBlank)

/-- Trimming leaves nothing of a text of blanks, and something of any other. -/
theorem trim_eq_nil_iff (t : Text) : trim t = [] ↔ ∀ c ∈ t, isBlank c = true := by
  have hfront : t.dropWhile isBlank = [] ↔ ∀ c ∈ t, isBlank c = true := List.dropWhile_eq_nil_iff
  rw [← hfront]
  cases hrest : t.dropWhile isBlank with
  | nil =>
      rw [trim, trimBy, hrest]
      exact iff_of_true rfl rfl
  | cons c rest =>
      rcases trim_of_dropWhile hrest with ⟨hc, hkeep⟩
      rcases trim_cons c rest hc with ⟨more, hmore⟩
      rw [hkeep, hmore]
      exact iff_of_false (List.cons_ne_nil c more) (List.cons_ne_nil c rest)

/-- A text is what trimming leaves, with blanks before and after it. -/
theorem trim_between (t : Text) : ∃ front back, (∀ c ∈ front, isBlank c = true)
    ∧ (∀ c ∈ back, isBlank c = true) ∧ front ++ trim t ++ back = t := by
  refine ⟨t.takeWhile isBlank, ((t.dropWhile isBlank).reverse.takeWhile isBlank).reverse,
    fun c hc => List.mem_takeWhile_imp hc,
    fun c hc => List.mem_takeWhile_imp (List.mem_reverse.mp hc), ?_⟩
  rw [trim, trimBy, List.append_assoc, ← List.reverse_append, List.takeWhile_append_dropWhile,
    List.reverse_reverse, List.takeWhile_append_dropWhile]

theorem trim_sublist (t : Text) : (trim t).Sublist t := by
  rcases trim_between t with ⟨front, back, -, -, ht⟩
  have hmiddle := (List.sublist_append_right front (trim t)).trans
    (List.sublist_append_left (front ++ trim t) back)
  rwa [ht] at hmiddle

theorem trim_front {front : Text} (h : ∀ c ∈ front, isBlank c = true) (t : Text) :
    trim (front ++ t) = trim t := by
  rw [trim, trimBy, List.dropWhile_append_of_pos h]
  rfl

theorem trim_back {back : Text} (h : ∀ c ∈ back, isBlank c = true) (t : Text) :
    trim (t ++ back) = trim t := by
  by_cases ht : ∀ c ∈ t, isBlank c = true
  · rw [trim_front ht, (trim_eq_nil_iff t).mpr ht, (trim_eq_nil_iff back).mpr h]
  have hfront : (t ++ back).dropWhile isBlank = t.dropWhile isBlank ++ back := by
    rw [List.dropWhile_append, if_neg]
    rw [List.isEmpty_iff, List.dropWhile_eq_nil_iff]
    exact ht
  rw [trim, trim, trimBy, trimBy, hfront, List.reverse_append,
    List.dropWhile_append_of_pos fun c hc => h c (List.mem_reverse.mp hc)]

end Text

end QueryDesk
