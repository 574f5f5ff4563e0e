import Mathlib.Data.List.Basic
import Mathlib.Data.List.TakeWhile
import Mathlib.Data.Nat.Digits.Defs
import QueryDesk.Number.Binary64
import QueryDesk.Text.Digit

/-!
# Numerals

A numeral is a longest run of digits: it ends where no digit follows. So a run is
found again in front of any text that does not go on with it, and nothing of what
was read has to be given back.

The value of a numeral is the number its digits write to the base ten, whatever
script they are of. A numeral of some length is below the power of ten with that
exponent, so what is short enough to be converted is told by the value alone once
a number is written without zeros in front.

## Main definitions

* `Text.Stops`: A text does not go on with a run.
* `Text.decimal`: The number that digits write to the base ten.

## Theorems

* `takeWhile_run`, `dropWhile_run`: A run is found in front of what stops it.
* `numeralValue_eq_decimal`: The value of a numeral is the number its digits write.
* `numeralValue_lt`: A numeral is below the power of ten of its length.
* `numeralValue_ofNat`: A number that was written is the value of its numeral.
* `length_ofNat_le_iff`: How many digits a number is written with.
* `ofInt_append_inj`: A number is found again in front of what does not go on with it.
-/

namespace QueryDesk

namespace Text

/-- A text does not go on with a character that `p` picks out. -/
def Stops (p : Char → Bool) (rest : Text) : Prop :=
  ∀ c, rest.head? = some c → p c = false

theorem Stops.cons {p : Char → Bool} {c : Char} (h : p c = false) (rest : Text) :
    Stops p (c :: rest) := by
  intro d hd
  rw [← Option.some.inj hd]
  exact h

theorem Stops.dropWhile (p : Char → Bool) (t : Text) : Stops p (t.dropWhile p) := by
  intro c hc
  rw [← List.find?_not_eq_head?_dropWhile] at hc
  rw [← Bool.not_eq_true', List.find?_some hc]

/-- A run is what is taken from the front of a text that it stands before, unless the text
    goes on with it. -/
theorem takeWhile_run {p : Char → Bool} {run rest : Text} (hrun : ∀ c ∈ run, p c = true)
    (hrest : Stops p rest) : (run ++ rest).takeWhile p = run := by
  rw [List.takeWhile_append_of_pos hrun]
  cases rest with
  | nil => rw [List.takeWhile_nil, List.append_nil]
  | cons c rest =>
      have hc : ¬ p c = true := by rw [hrest c rfl]; exact Bool.false_ne_true
      rw [List.takeWhile_cons_of_neg hc, List.append_nil]

theorem dropWhile_run {p : Char → Bool} {run rest : Text} (hrun : ∀ c ∈ run, p c = true)
    (hrest : Stops p rest) : (run ++ rest).dropWhile p = rest := by
  rw [List.dropWhile_append_of_pos hrun]
  cases rest with
  | nil => rw [List.dropWhile_nil]
  | cons c rest =>
      have hc : ¬ p c = true := by rw [hrest c rfl]; exact Bool.false_ne_true
      rw [List.dropWhile_cons_of_neg hc]

/-! ## The value of a numeral -/

theorem digitValue?_lt {c : Char} {d : Nat} (h : digitValue? c = some d) : d < 10 := by
  rw [digitValue?, Option.map_eq_some_iff] at h
  rcases h with ⟨first, hfirst, rfl⟩
  have hbounds := List.find?_some hfirst
  simp only [Bool.and_eq_true, decide_eq_true_eq] at hbounds
  omega

/-- The number that digits write to the base ten. -/
def decimal (run : Text) : Nat :=
  Nat.ofDigits 10 (run.reverse.map fun c => (digitValue? c).getD 0)

/-- The value of a numeral is the number its digits write. -/
theorem numeralValue_eq_decimal (run : Text) : numeralValue run = decimal run := by
  rw [decimal, Nat.ofDigits_eq_foldr, List.map_reverse, List.foldr_reverse, List.foldl_map,
    numeralValue]
  refine List.foldl_ext _ _ 0 fun n c _ => ?_
  rw [Nat.add_comm]
  rfl

theorem numeralValue_lt (run : Text) : numeralValue run < Binary64.tenTo run.length := by
  have hdigits : ∀ d ∈ run.reverse.map fun c => (digitValue? c).getD 0, d < 10 := by
    intro d hd
    rcases List.mem_map.mp hd with ⟨c, -, rfl⟩
    cases hc : digitValue? c with
    | none => exact Nat.zero_lt_succ 9
    | some d => exact digitValue?_lt hc
  have hlt := Nat.ofDigits_lt_base_pow_length (by decide) hdigits
  rw [List.length_map, List.length_reverse] at hlt
  rw [numeralValue_eq_decimal]
  exact hlt

/-! ## Numbers that are written -/

theorem digitValue?_ascii {c : Char} (h : c.isDigit = true) :
    digitValue? c = some (c.toNat - 0x30) := by
  have hbounds : 0x30 ≤ c.toNat ∧ c.toNat ≤ 0x39 := Char.isDigit_iff_toNat.mp h
  rw [digitValue?, digitZeros, List.find?_cons_of_pos]
  · rfl
  · simp only [Bool.and_eq_true, decide_eq_true_eq]
    omega

theorem isDigit_ascii {c : Char} (h : c.isDigit = true) : isDigit c = true := by
  rw [isDigit, digitValue?_ascii h]
  rfl

theorem ascii_of_mem_ofNat {n : Nat} {c : Char} (h : c ∈ ofNat n) : c.isDigit = true :=
  Nat.isDigit_of_mem_toDigits (by decide) (by decide) h

theorem ofNat_ne_nil (n : Nat) : ofNat n ≠ [] := Nat.toDigits_ne_nil

/-- A number is the value of the numeral it is written as. -/
theorem numeralValue_ofNat (n : Nat) : numeralValue (ofNat n) = n := by
  have hvalue := Nat.ofDigitChars_ten_toDigits (n := n)
  rw [Nat.ofDigitChars_eq_foldl] at hvalue
  refine Eq.trans (List.foldl_ext _ _ 0 fun m c hc => ?_) hvalue
  rw [digitValue?_ascii (ascii_of_mem_ofNat hc)]
  rfl

/-- A number is written with at most so many digits just when it is below the power
    of ten. -/
theorem length_ofNat_le_iff (n : Nat) {k : Nat} (h : 0 < k) :
    (ofNat n).length ≤ k ↔ n < Binary64.tenTo k :=
  Nat.length_toDigits_le_iff (by decide) h

theorem ofNat_append_inj {m n : Nat} {s t : Text} (hs : Stops Char.isDigit s)
    (ht : Stops Char.isDigit t) (h : ofNat m ++ s = ofNat n ++ t) : m = n ∧ s = t := by
  have hdigits : ∀ k, ∀ c ∈ ofNat k, c.isDigit = true := fun _ _ hc => ascii_of_mem_ofNat hc
  have hrun := congrArg (List.takeWhile Char.isDigit) h
  have hrest := congrArg (List.dropWhile Char.isDigit) h
  rw [takeWhile_run (hdigits m) hs, takeWhile_run (hdigits n) ht] at hrun
  rw [dropWhile_run (hdigits m) hs, dropWhile_run (hdigits n) ht] at hrest
  refine ⟨?_, hrest⟩
  rw [← numeralValue_ofNat m, hrun, numeralValue_ofNat n]

-- A minus sign is no digit, so it begins no number that is not below zero.
theorem minus_cons_ne_ofNat_append (n : Nat) (s t : Text) : '-' :: s ≠ ofNat n ++ t := by
  rcases List.exists_cons_of_ne_nil (ofNat_ne_nil n) with ⟨c, more, hn⟩
  intro h
  have hdigit : c.isDigit = true := ascii_of_mem_ofNat (hn ▸ List.mem_cons_self)
  rw [hn] at h
  rw [← (List.cons.inj h).1] at hdigit
  exact absurd hdigit (by decide)

/-- A number is found again in front of what does not go on with it, and so is the rest. -/
theorem ofInt_append_inj {m n : Int} {s t : Text} (hs : Stops Char.isDigit s)
    (ht : Stops Char.isDigit t) (h : ofInt m ++ s = ofInt n ++ t) : m = n ∧ s = t := by
  cases m with
  | ofNat m =>
      cases n with
      | ofNat n => exact (ofNat_append_inj hs ht h).imp_left (congrArg Int.ofNat)
      | negSucc n => exact absurd h.symm (minus_cons_ne_ofNat_append m _ s)
  | negSucc m =>
      cases n with
      | ofNat n => exact absurd h (minus_cons_ne_ofNat_append n _ t)
      | negSucc n =>
          rcases ofNat_append_inj hs ht (List.cons.inj h).2 with ⟨hnumber, hrest⟩
          exact ⟨congrArg Int.negSucc (Nat.succ.inj hnumber), hrest⟩

/-- A number is written with digits and a minus sign at most. -/
theorem mem_ofInt {n : Int} {c : Char} (h : c ∈ ofInt n) : c = '-' ∨ c.isDigit = true := by
  cases n with
  | ofNat n => exact Or.inr (ascii_of_mem_ofNat h)
  | negSucc n => exact (List.mem_cons.mp h).imp_right ascii_of_mem_ofNat

end Text

end QueryDesk
