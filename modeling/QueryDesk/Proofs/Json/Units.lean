import Mathlib.Data.List.Chain
import QueryDesk.Json.Printer
import QueryDesk.Json.Reader
import QueryDesk.Proofs.Text.Order

/-!
# Texts read back

A text is written with an escape for every character that is not printable ASCII,
one for each of the character's sixteen-bit units. The reader gives the units first
and makes characters of them afterwards, so that a text comes back in two steps:
its units, whatever the text, and then the text.

In the second step two units that never belonged together can be taken for the pair
of one character. A text comes back as it was just when it keeps them apart.

## Main definitions

* `Json.unitsOf`: The units a character is written with.
* `Text.Separate`: No first unit of a pair stands alone before a second one.

## Theorems

* `readUnits_escape`: The units of a text are read back.
* `ofUnits_flatMap`: A text that keeps units apart comes back from its units.
* `readString_escape`: Such a text is read back.
-/

namespace QueryDesk

/-- No character that stands for the first unit of a pair comes directly before one
    that stands for a second unit. -/
def Text.Separate (t : Text) : Prop :=
  t.IsChain fun c d =>
    ¬ (Json.isHighUnit (Unpaired.code c) = true ∧ Json.isLowUnit (Unpaired.code d) = true)

namespace Json

/-- The units a character is written with: one, or a pair. -/
def unitsOf (c : Char) : List Nat :=
  let n := Unpaired.code c
  if n < 0x10000 then [n] else [0xd800 + (n - 0x10000) / 1024, 0xdc00 + (n - 0x10000) % 1024]

/-! ## Hexadecimal digits -/

theorem hexValue?_digitChar : ∀ d < 16, hexValue? (Nat.digitChar d) = some d := by
  decide

theorem hexQuad?_digitChar {a b c d : Nat} (ha : a < 16) (hb : b < 16) (hc : c < 16)
    (hd : d < 16) :
    hexQuad? a.digitChar b.digitChar c.digitChar d.digitChar
      = some (4096 * a + 256 * b + 16 * c + d) := by
  rw [hexQuad?, hexValue?_digitChar a ha, hexValue?_digitChar b hb, hexValue?_digitChar c hc,
    hexValue?_digitChar d hd]
  rfl

theorem hex_four (n : Nat) (h : n < 0x10000) :
    Text.hex 4 n = [(n / 4096).digitChar, (n / 256 % 16).digitChar, (n / 16 % 16).digitChar,
      (n % 16).digitChar] := by
  have hstep : ∀ m, 16 ≤ m → Nat.toDigits 16 m = Nat.toDigits 16 (m / 16) ++ [(m % 16).digitChar] :=
    fun m => Nat.toDigits_of_base_le (by decide)
  have hlast : ∀ m, m < 16 → Nat.toDigits 16 m = [m.digitChar] := fun m => Nat.toDigits_of_lt_base
  rw [Text.hex]
  rcases Nat.lt_or_ge n 16 with h16 | h16
  · rw [hlast n h16, show n / 4096 = 0 by omega, show n / 256 % 16 = 0 by omega,
      show n / 16 % 16 = 0 by omega, show n % 16 = n by omega]
    rfl
  rcases Nat.lt_or_ge n 256 with h256 | h256
  · rw [hstep n h16, hlast (n / 16) (by omega), show n / 4096 = 0 by omega,
      show n / 256 % 16 = 0 by omega, show n / 16 % 16 = n / 16 by omega]
    rfl
  rcases Nat.lt_or_ge n 4096 with h4096 | h4096
  · rw [hstep n h16, hstep (n / 16) (by omega), hlast (n / 16 / 16) (by omega),
      show n / 4096 = 0 by omega, show n / 256 % 16 = n / 16 / 16 by omega]
    rfl
  · rw [hstep n h16, hstep (n / 16) (by omega), hstep (n / 16 / 16) (by omega),
      hlast (n / 16 / 16 / 16) (by omega), show n / 4096 = n / 16 / 16 / 16 by omega,
      show n / 256 % 16 = n / 16 / 16 % 16 by omega]
    rfl

/-! ## Units -/

/-- Units in front of what a reader of units gives. -/
def Reads.after (units : List Nat) (reads : Reads (List Nat)) : Reads (List Nat) :=
  reads.map fun (more, rest) => (units ++ more, rest)

theorem readUnits_unitEscape (opened n : Nat) (h : n < 0x10000) (rest : Text) (hrest : rest ≠ []) :
    readUnits opened (unitEscape n ++ rest) = Reads.after [n] (readUnits opened rest) := by
  cases rest with
  | nil => exact absurd rfl hrest
  | cons c rest =>
      have hquad := hexQuad?_digitChar (a := n / 4096) (b := n / 256 % 16) (c := n / 16 % 16)
        (d := n % 16) (by omega) (by omega) (by omega) (by omega)
      have hvalue : 4096 * (n / 4096) + 256 * (n / 256 % 16) + 16 * (n / 16 % 16) + n % 16 = n := by
        omega
      rw [hvalue] at hquad
      rw [unitEscape, hex_four n h]
      refine (readUnits.eq_3 opened _ _ _ _ n c rest hquad).trans ?_
      cases readUnits opened (c :: rest) <;> rfl

theorem readUnits_short (opened : Nat) (e c : Char) (he : e ≠ 'u') (hc : shortEscape? e = some c)
    (rest : Text) :
    readUnits opened ('\\' :: e :: rest) = Reads.after [c.toNat] (readUnits opened rest) := by
  rw [readUnits.eq_7 opened e rest (fun _ _ _ _ _ heq _ => he heq) he, hc]
  simp only
  cases readUnits opened rest <;> rfl

theorem readUnits_plain (opened : Nat) (c : Char) (hquote : c ≠ '"') (hslash : c ≠ '\\')
    (hc : ¬ c.toNat < 0x20) (rest : Text) :
    readUnits opened (c :: rest) = Reads.after [c.toNat] (readUnits opened rest) := by
  rw [readUnits.eq_8 opened c rest hquote (fun _ _ _ _ _ heq _ => hslash heq)
    (fun _ heq _ => hslash heq) (fun heq _ => hslash heq) (fun _ _ heq _ => hslash heq), if_neg hc]
  cases readUnits opened rest <;> rfl

theorem Reads.after_append (units more : List Nat) (reads : Reads (List Nat)) :
    Reads.after units (Reads.after more reads) = Reads.after (units ++ more) reads := by
  cases reads with
  | error stop => rfl
  | ok given =>
      exact congrArg (fun units => Except.ok (units, given.2)) (List.append_assoc _ _ _).symm

-- What a character that stands for itself counts as.
theorem unitsOf_of_code {c : Char} {n : Nat} (h : Unpaired.code c = n) (hn : n < 0x10000) :
    unitsOf c = [n] := by
  rw [unitsOf, h]
  exact if_pos hn

theorem unitsOf_of_pair {c : Char} (h : ¬ Unpaired.code c < 0x10000) :
    unitsOf c = [0xd800 + (Unpaired.code c - 0x10000) / 1024,
      0xdc00 + (Unpaired.code c - 0x10000) % 1024] := by
  rw [unitsOf]
  exact if_neg h

/-- The escape of a character is read as its units. -/
theorem readUnits_escapeChar (opened : Nat) (c : Char) (rest : Text) (hrest : rest ≠ []) :
    readUnits opened (escapeChar c ++ rest) = Reads.after (unitsOf c) (readUnits opened rest) := by
  have hshort : ∀ e d : Char, e ≠ 'u' → shortEscape? e = some d → ∀ n, Unpaired.code c = n →
      n < 0x10000 → d.toNat = n →
      readUnits opened ('\\' :: e :: rest) = Reads.after (unitsOf c) (readUnits opened rest) := by
    rintro e d he hd n hcode hn rfl
    rw [unitsOf_of_code hcode hn]
    exact readUnits_short opened e d he hd rest
  unfold escapeChar
  simp only
  split
  · next hmark =>
      rw [Bool.or_eq_true, decide_eq_true_eq, decide_eq_true_eq] at hmark
      rcases hmark with rfl | rfl
      · exact hshort '"' '"' (by decide) rfl 34 (by decide) (by decide) rfl
      · exact hshort '\\' '\\' (by decide) rfl 92 (by decide) (by decide) rfl
  next hmark =>
  rw [Bool.or_eq_true, decide_eq_true_eq, decide_eq_true_eq, not_or] at hmark
  split
  · next heq => exact hshort 'n' '\n' (by decide) rfl 10 (heq ▸ by decide) (by decide) rfl
  split
  · next heq => exact hshort 'r' '\r' (by decide) rfl 13 (heq ▸ by decide) (by decide) rfl
  split
  · next heq => exact hshort 't' '\t' (by decide) rfl 9 (heq ▸ by decide) (by decide) rfl
  split
  · next heq => exact hshort 'f' (Char.ofNat 12) (by decide) rfl 12 heq (by decide) rfl
  split
  · next heq => exact hshort 'b' (Char.ofNat 8) (by decide) rfl 8 heq (by decide) rfl
  split
  · next hprintable =>
      rw [Bool.and_eq_true, decide_eq_true_eq, decide_eq_true_eq] at hprintable
      have hself : c.toNat = Unpaired.code c := Unpaired.toNat_eq_code (by omega)
      rw [unitsOf_of_code hself.symm (by omega)]
      exact readUnits_plain opened c hmark.1 hmark.2 (by omega) rest
  split
  · next hone =>
      rw [unitsOf_of_code rfl hone]
      exact readUnits_unitEscape opened _ hone rest hrest
  · next hpair =>
      have hbound := Unpaired.code_lt c
      rw [unitsOf_of_pair hpair, List.append_assoc, readUnits_unitEscape opened _ (by omega) _
        (List.append_ne_nil_of_right_ne_nil _ hrest),
        readUnits_unitEscape opened _ (by omega) rest hrest, Reads.after_append]
      rfl

/-- The units of a text are read back up to the closing quote. -/
theorem readUnits_escape (opened : Nat) (t rest : Text) :
    readUnits opened (t.flatMap escapeChar ++ '"' :: rest) = .ok (t.flatMap unitsOf, rest) := by
  induction t with
  | nil => rfl
  | cons c t ih =>
      rw [List.flatMap_cons, List.append_assoc, readUnits_escapeChar opened c _
        (List.append_ne_nil_of_right_ne_nil _ (List.cons_ne_nil _ _)), ih, List.flatMap_cons]
      rfl

/-! ## Characters -/

theorem isHighUnit_iff (n : Nat) : isHighUnit n = true ↔ 0xd800 ≤ n ∧ n < 0xdc00 := by
  rw [isHighUnit, Bool.and_eq_true, decide_eq_true_eq, decide_eq_true_eq]

theorem isLowUnit_iff (n : Nat) : isLowUnit n = true ↔ 0xdc00 ≤ n ∧ n < 0xe000 := by
  rw [isLowUnit, Bool.and_eq_true, decide_eq_true_eq, decide_eq_true_eq]

-- A unit of a pair is held by its stand-in.
theorem standIn_code {c : Char} (hlow : 0xd800 ≤ Unpaired.code c)
    (hhigh : Unpaired.code c < 0xe000) : Unpaired.standIn (Unpaired.code c) = c := by
  rcases Unpaired.code_cases c with ⟨_, heq⟩ | ⟨hself, _⟩
  · rw [Unpaired.standIn, ← heq, Char.ofNat_toNat]
  · rw [Unpaired.isUnit, decide_eq_true hlow, decide_eq_true hhigh] at hself
    exact absurd hself.symm Bool.false_ne_true

-- A unit that is no pair's first one makes one character.
theorem ofUnits_code {c : Char} (h : ¬ isHighUnit (Unpaired.code c) = true) (units : List Nat) :
    ofUnits (Unpaired.code c :: units) = c :: ofUnits units := by
  have hchar : (if isLowUnit (Unpaired.code c) then Unpaired.standIn (Unpaired.code c)
      else Char.ofNat (Unpaired.code c)) = c := by
    split
    · next hlow =>
        rw [isLowUnit_iff] at hlow
        exact standIn_code (by omega) (by omega)
    · next hlow =>
        rw [isLowUnit_iff] at hlow
        rw [isHighUnit_iff] at h
        rw [← Unpaired.toNat_eq_code (by omega), Char.ofNat_toNat]
  cases units with
  | nil => rw [ofUnits.eq_3, if_neg h, hchar]
  | cons unit units => rw [ofUnits, if_neg h, hchar]

-- The first unit of a pair that no second one follows makes one character.
theorem ofUnits_high {c : Char} (h : isHighUnit (Unpaired.code c) = true) {units : List Nat}
    (hunits : ∀ n ∈ units.head?, ¬ isLowUnit n = true) :
    ofUnits (Unpaired.code c :: units) = c :: ofUnits units := by
  have hself : Unpaired.standIn (Unpaired.code c) = c := by
    have hrange := (isHighUnit_iff _).mp h
    exact standIn_code (by omega) (by omega)
  cases units with
  | nil =>
      rw [ofUnits.eq_3, if_pos h, hself]
      rfl
  | cons low units => rw [ofUnits, if_pos h, if_neg (hunits low rfl), hself]

-- The pair of a character makes it.
theorem ofUnits_pair {c : Char} (h : ¬ Unpaired.code c < 0x10000) (units : List Nat) :
    ofUnits (unitsOf c ++ units) = c :: ofUnits units := by
  have hbound := Unpaired.code_lt c
  have hvalue : 0x10000 + 1024 * (0xd800 + (Unpaired.code c - 0x10000) / 1024 - 0xd800)
      + (0xdc00 + (Unpaired.code c - 0x10000) % 1024 - 0xdc00) = Unpaired.code c := by
    omega
  rw [unitsOf_of_pair h, List.cons_append, List.singleton_append, ofUnits,
    if_pos ((isHighUnit_iff _).mpr (by omega)),
    if_pos ((isLowUnit_iff _).mpr (by omega)), hvalue, ← Unpaired.toNat_eq_code (by omega),
    Char.ofNat_toNat]

-- Only a unit that stands alone can be the second one of a pair that begins a text.
theorem isLowUnit_of_head {t : Text} {n : Nat} (h : n ∈ (t.flatMap unitsOf).head?)
    (hlow : isLowUnit n = true) : ∃ c ∈ t.head?, isLowUnit (Unpaired.code c) = true := by
  cases t with
  | nil => exact absurd h (Option.not_mem_none n)
  | cons c t =>
      refine ⟨c, rfl, ?_⟩
      rw [List.flatMap_cons] at h
      by_cases hone : Unpaired.code c < 0x10000
      · rw [unitsOf_of_code rfl hone, List.singleton_append, List.head?_cons,
          Option.mem_some_iff] at h
        exact h ▸ hlow
      · have hbound := Unpaired.code_lt c
        rw [unitsOf_of_pair hone, List.cons_append, List.head?_cons, Option.mem_some_iff] at h
        rw [← h, isLowUnit_iff] at hlow
        omega

/-- A text that keeps units apart comes back from its units. -/
theorem ofUnits_flatMap {t : Text} (h : t.Separate) : ofUnits (t.flatMap unitsOf) = t := by
  induction t with
  | nil => rfl
  | cons c t ih =>
      rcases List.isChain_cons.mp h with ⟨hfirst, hrest⟩
      rw [List.flatMap_cons]
      by_cases hone : Unpaired.code c < 0x10000
      · rw [unitsOf_of_code rfl hone, List.singleton_append]
        by_cases hhigh : isHighUnit (Unpaired.code c) = true
        · rw [ofUnits_high hhigh, ih hrest]
          intro n hn hlow
          rcases isLowUnit_of_head hn hlow with ⟨d, hd, hsecond⟩
          exact hfirst d hd ⟨hhigh, hsecond⟩
        · rw [ofUnits_code hhigh, ih hrest]
      · rw [ofUnits_pair hone, ih hrest]

/-- A text that keeps units apart is read back. -/
theorem readString_escape {t : Text} (h : t.Separate) (rest : Text) :
    readString (t.flatMap escapeChar ++ '"' :: rest) = .ok (t, rest) := by
  rw [readString, readUnits_escape]
  simp only [ofUnits_flatMap h]

end Json

end QueryDesk
