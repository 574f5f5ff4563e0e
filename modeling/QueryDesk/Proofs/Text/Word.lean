import QueryDesk.Proofs.Text.Split

/-!
# The words of a text

A text is words with blanks between them, and perhaps around them. What makes them
the maximal parts without blanks is that the text ends after each word, or goes on
with a blank. There is one way only to see a text like this, and it is the list of
its words.

## Main definitions

* `Text.IsWords`: The maximal parts of a text without blanks.

## Theorems

* `words_word`: The words of a text that begins with a word.
* `exists_isWords`: Every text is words with blanks between them.
* `isWords_iff`: The words of a text are its maximal parts without blanks.
* `IsWords.proper`: A word is not empty and has no blank.
* `IsWords.ne_nil`: There is a word where something is not blank.
-/

namespace QueryDesk

namespace Text

/-- The maximal parts of a text without blanks, in their order. -/
inductive IsWords : Text → List Text → Prop
  | blank {gap : Text} (hgap : ∀ c ∈ gap, isBlank c = true) : IsWords gap []
  | word {gap word rest : Text} {words : List Text} (hgap : ∀ c ∈ gap, isBlank c = true)
      (hne : word ≠ []) (hword : ∀ c ∈ word, isBlank c = false)
      (hend : ∀ c ∈ rest.head?, isBlank c = true) (hrest : IsWords rest words) :
      IsWords (gap ++ word ++ rest) (word :: words)

/-! ## The words that are found -/

theorem words_append_blank (first rest : Text) {c : Char} (hc : isBlank c = true) :
    words (first ++ c :: rest) = words first ++ words rest := by
  rw [words, words, words, pieces_eq_splitOnP, pieces_eq_splitOnP, pieces_eq_splitOnP,
    List.splitOnP_append_cons first rest hc, List.filter_append]

theorem words_blank_append {gap : Text} (hgap : ∀ c ∈ gap, isBlank c = true) (rest : Text) :
    words (gap ++ rest) = words rest := by
  induction gap with
  | nil => rfl
  | cons c gap ih =>
      rw [List.cons_append]
      refine (words_append_blank [] _ (hgap c List.mem_cons_self)).trans ?_
      exact ih fun d hd => hgap d (List.mem_cons_of_mem c hd)

theorem words_of_blank {gap : Text} (hgap : ∀ c ∈ gap, isBlank c = true) : words gap = [] := by
  rw [← List.append_nil gap, words_blank_append hgap]
  rfl

/-- The words of a text that begins with a word are that word and those of the
    rest. -/
theorem words_word {gap word rest : Text} (hgap : ∀ c ∈ gap, isBlank c = true)
    (hne : word ≠ []) (hword : ∀ c ∈ word, isBlank c = false)
    (hend : ∀ c ∈ rest.head?, isBlank c = true) :
    words (gap ++ word ++ rest) = word :: words rest := by
  have hfirst : words word = [word] := by
    rw [words, pieces_eq_splitOnP, List.splitOnP_eq_singleton hword, List.filter_cons_of_pos]
    · rfl
    · rw [List.isEmpty_eq_false_iff.mpr hne]
      rfl
  rw [List.append_assoc, words_blank_append hgap]
  cases rest with
  | nil =>
      rw [List.append_nil, hfirst]
      rfl
  | cons c rest =>
      have hc : isBlank c = true := hend c rfl
      have hrest : words (c :: rest) = words rest := words_append_blank [] rest hc
      rw [words_append_blank word rest hc, hfirst, hrest]
      rfl

/-! ## Maximal parts without blanks -/

-- A blank belongs to the gap before the first word.
theorem IsWords.cons_blank {t : Text} {found : List Text} (h : IsWords t found) {c : Char}
    (hc : isBlank c = true) : IsWords (c :: t) found := by
  cases h with
  | blank hgap => exact .blank (List.forall_mem_cons.mpr ⟨hc, hgap⟩)
  | word hgap hne hword hend hrest =>
      exact .word (List.forall_mem_cons.mpr ⟨hc, hgap⟩) hne hword hend hrest

-- Another character begins the first word, or is a word before a gap.
theorem IsWords.cons_of_not_blank {t : Text} {found : List Text} (h : IsWords t found) {c : Char}
    (hc : isBlank c = false) : ∃ found, IsWords (c :: t) found := by
  have hsingle : ∀ d ∈ [c], isBlank d = false := List.forall_mem_singleton.mpr hc
  have hnone : ∀ d ∈ ([] : Text), isBlank d = true := fun _ h => absurd h List.not_mem_nil
  cases h with
  | blank hgap =>
      exact ⟨_, .word hnone (List.cons_ne_nil c []) hsingle
        (fun d hd => hgap d (List.mem_of_mem_head? hd)) (.blank hgap)⟩
  | @word gap word rest words hgap hne hword hend hrest =>
      cases gap with
      | nil =>
          exact ⟨_, .word hnone (List.cons_ne_nil c word)
            (List.forall_mem_cons.mpr ⟨hc, hword⟩) hend hrest⟩
      | cons d gap =>
          refine ⟨_, .word hnone (List.cons_ne_nil c []) hsingle (fun e he => ?_)
            (.word hgap hne hword hend hrest)⟩
          rw [← Option.some.inj he]
          exact hgap d List.mem_cons_self

theorem exists_isWords (t : Text) : ∃ found, IsWords t found := by
  induction t with
  | nil => exact ⟨[], .blank fun _ h => absurd h List.not_mem_nil⟩
  | cons c t ih =>
      rcases ih with ⟨found, hfound⟩
      cases hc : isBlank c with
      | true => exact ⟨found, hfound.cons_blank hc⟩
      | false => exact hfound.cons_of_not_blank hc

/-- The words of a text are its maximal parts without blanks. -/
theorem isWords_iff (t : Text) (found : List Text) : IsWords t found ↔ words t = found := by
  have hwords : ∀ {t found}, IsWords t found → words t = found := by
    intro t found h
    induction h with
    | blank hgap => exact words_of_blank hgap
    | word hgap hne hword hend _ ih => rw [words_word hgap hne hword hend, ih]
  refine ⟨hwords, ?_⟩
  rintro rfl
  rcases exists_isWords t with ⟨found, hfound⟩
  rw [hwords hfound]
  exact hfound

/-- A word is not empty and has no blank. -/
theorem IsWords.proper {t : Text} {found : List Text} (h : IsWords t found) :
    ∀ word ∈ found, word ≠ [] ∧ ∀ c ∈ word, isBlank c = false := by
  induction h with
  | blank => exact fun _ h => absurd h List.not_mem_nil
  | word _ hne hword _ _ ih => exact List.forall_mem_cons.mpr ⟨⟨hne, hword⟩, ih⟩

/-- There is a word where something is not blank. -/
theorem IsWords.ne_nil {t : Text} {found : List Text} (h : IsWords t found)
    (hword : ∃ c ∈ t, isBlank c = false) : found ≠ [] := by
  cases h with
  | blank hgap =>
      rcases hword with ⟨c, hc, hnot⟩
      exact absurd (hgap c hc) (by rw [hnot]; exact Bool.false_ne_true)
  | word => exact List.cons_ne_nil _ _

end Text

end QueryDesk
