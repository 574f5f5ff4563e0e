import QueryDesk.Text.Basic

/-!
# The order of texts

Texts are ordered by the code points of their characters, and a stand-in counts as
the unit it holds. No two characters have one code point, so the order is a total
one: a list of keys has one order only.

## Theorems

* `code_injective`: Characters with one code point are the same.
* `precedes_total`, `precedes_trans`, `precedes_antisymm`: The order is total.
-/

namespace QueryDesk

namespace Unpaired

/-- No character has the code point of one unit of a pair. -/
theorem not_isUnit_toNat (c : Char) : isUnit c.toNat = false := by
  have hvalid : c.toNat < 0xd800 ∨ 0xdfff < c.toNat ∧ c.toNat < 0x110000 := c.valid
  rw [isUnit, Bool.and_eq_false_iff, decide_eq_false_iff_not, decide_eq_false_iff_not]
  omega

-- What a character counts as: the unit it holds, or its own code point.
theorem code_cases (c : Char) :
    isUnit (code c) = true ∧ c.toNat = distance + code c
      ∨ isUnit (code c) = false ∧ c.toNat = code c := by
  unfold code
  split
  · next hunit =>
      refine Or.inl ⟨hunit, ?_⟩
      rw [isStandIn, isUnit, Bool.and_eq_true, decide_eq_true_eq, decide_eq_true_eq] at hunit
      omega
  · exact Or.inr ⟨not_isUnit_toNat c, rfl⟩

theorem code_lt (c : Char) : code c < 0x110000 := by
  have hvalid : c.toNat < 0xd800 ∨ 0xdfff < c.toNat ∧ c.toNat < 0x110000 := c.valid
  unfold code
  split <;> omega

-- Outside the range of units a character counts as itself.
theorem toNat_eq_code {c : Char} (h : code c < 0xd800 ∨ 0xe000 ≤ code c) : c.toNat = code c := by
  rcases code_cases c with ⟨hunit, _⟩ | ⟨_, hself⟩
  · rw [isUnit, Bool.and_eq_true, decide_eq_true_eq, decide_eq_true_eq] at hunit
    omega
  · exact hself

/-- Characters with one code point are the same. -/
theorem code_injective {c d : Char} (h : code c = code d) : c = d := by
  refine Char.toNat_inj.mp ?_
  rcases code_cases c with ⟨hc, hcode⟩ | ⟨hc, hcode⟩
  · rcases code_cases d with ⟨_, hdcode⟩ | ⟨hd, _⟩
    · rw [hcode, hdcode, h]
    · rw [h, hd] at hc
      exact absurd hc Bool.false_ne_true
  · rcases code_cases d with ⟨hd, _⟩ | ⟨_, hdcode⟩
    · rw [h, hd] at hc
      exact absurd hc.symm Bool.false_ne_true
    · rw [hcode, hdcode, h]

end Unpaired

namespace Text

theorem precedes_cons (c d : Char) (s t : Text) :
    precedes (c :: s) (d :: t) = true
      ↔ Unpaired.code c < Unpaired.code d ∨ c = d ∧ precedes s t = true := by
  rw [precedes, Bool.or_eq_true, decide_eq_true_eq, Bool.and_eq_true, beq_iff_eq]

theorem precedes_total (s t : Text) : (precedes s t || precedes t s) = true := by
  rw [Bool.or_eq_true]
  induction s generalizing t with
  | nil => exact Or.inl rfl
  | cons c s ih =>
      cases t with
      | nil => exact Or.inr rfl
      | cons d t =>
          rw [precedes_cons, precedes_cons]
          rcases Nat.lt_trichotomy (Unpaired.code c) (Unpaired.code d) with hlt | heq | hgt
          · exact Or.inl (Or.inl hlt)
          · have hsame := Unpaired.code_injective heq
            exact (ih t).imp (fun h => Or.inr ⟨hsame, h⟩) fun h => Or.inr ⟨hsame.symm, h⟩
          · exact Or.inr (Or.inl hgt)

theorem precedes_trans (s t u : Text) (hst : precedes s t = true) (htu : precedes t u = true) :
    precedes s u = true := by
  induction s generalizing t u with
  | nil => rfl
  | cons c s ih =>
      cases t with
      | nil => exact absurd hst Bool.false_ne_true
      | cons d t =>
          cases u with
          | nil => exact absurd htu Bool.false_ne_true
          | cons e u =>
              rw [precedes_cons] at hst htu ⊢
              rcases hst with hst | ⟨rfl, hst⟩
              · rcases htu with htu | ⟨rfl, _⟩
                · exact Or.inl (Nat.lt_trans hst htu)
                · exact Or.inl hst
              · rcases htu with htu | ⟨rfl, htu⟩
                · exact Or.inl htu
                · exact Or.inr ⟨rfl, ih t u hst htu⟩

theorem precedes_antisymm {s t : Text} (hst : precedes s t = true) (hts : precedes t s = true) :
    s = t := by
  induction s generalizing t with
  | nil =>
      cases t with
      | nil => rfl
      | cons d t => exact absurd hts Bool.false_ne_true
  | cons c s ih =>
      cases t with
      | nil => exact absurd hst Bool.false_ne_true
      | cons d t =>
          rw [precedes_cons] at hst hts
          rcases hst with hst | ⟨rfl, hst⟩
          · rcases hts with hts | ⟨rfl, _⟩
            · exact absurd (Nat.lt_trans hst hts) (Nat.lt_irrefl _)
            · exact absurd hst (Nat.lt_irrefl _)
          · rcases hts with hts | ⟨_, hts⟩
            · exact absurd hts (Nat.lt_irrefl _)
            · rw [ih hst hts]

end Text

end QueryDesk
