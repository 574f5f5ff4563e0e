import Mathlib.Data.List.Find
import Mathlib.Data.List.TakeWhile
import QueryDesk.Json.Printer
import QueryDesk.Json.Reader

/-!
# Words and numbers read back

A word or a number in a file ends at a comma, at the end of its line or at the end
of the file. The reader takes as much as it can, and none of these could go on with
a word, with digits, with a fraction or with an exponent. So reading in the middle
of a file is reading the text alone and leaving the rest.

An integer is read back from its digits. Whether a number with a fraction is read
back from its shortest digits is not asked here: it is a condition on the number.

## Main definitions

* `Json.Ends`: What can come after a value in a file.
* `Json.beginsScalar`: The characters a word or a number can begin with.

## Theorems

* `readScalar_append`: Reading leaves what can come after a value.
* `readScalar_ofInt`: An integer that is not too long is read back.
* `beginsScalar_of_readScalar`: How a word or a number begins.
* `readValue_scalar`: A value that is read as a word or a number.
-/

namespace QueryDesk

namespace Json

/-- What can come after a value in a file: nothing, a comma, or the end of the
    line. -/
def Ends (rest : Text) : Prop :=
  ∀ c ∈ rest.head?, c = ',' ∨ c = '\n'

theorem Ends.nil : Ends [] := fun _ h => nomatch h

theorem Ends.comma (rest : Text) : Ends (',' :: rest) := fun _ h => Or.inl (Option.some.inj h).symm

theorem Ends.line (rest : Text) : Ends ('\n' :: rest) := fun _ h => Or.inr (Option.some.inj h).symm

theorem Ends.cons {c : Char} {rest : Text} (h : Ends (c :: rest)) : c = ',' ∨ c = '\n' :=
  h c rfl

section Append

variable {rest : Text}

/-! ## What comes after a value is left -/

theorem takeWhile_isDigit_append (hrest : Ends rest) (t : Text) :
    (t ++ rest).takeWhile isDigit = t.takeWhile isDigit
      ∧ (t ++ rest).dropWhile isDigit = t.dropWhile isDigit ++ rest := by
  induction t with
  | nil =>
      cases rest with
      | nil => exact ⟨rfl, rfl⟩
      | cons c rest => rcases hrest.cons with rfl | rfl <;> exact ⟨rfl, rfl⟩
  | cons c t ih =>
      rw [List.cons_append, List.takeWhile_cons, List.dropWhile_cons, List.takeWhile_cons,
        List.dropWhile_cons]
      split
      · exact ⟨congrArg (c :: ·) ih.1, ih.2⟩
      · exact ⟨rfl, rfl⟩

theorem integerPart?_append (hrest : Ends rest) {t whole after : Text}
    (h : integerPart? t = some (whole, after)) :
    integerPart? (t ++ rest) = some (whole, after ++ rest) := by
  cases t with
  | nil => exact absurd h (Option.some_ne_none _).symm
  | cons c t =>
      rw [integerPart?] at h
      rw [List.cons_append, integerPart?]
      split at h
      · next hzero =>
          rw [if_pos hzero]
          rcases Prod.mk.inj (Option.some.inj h) with ⟨rfl, rfl⟩
          rfl
      next hzero =>
      rw [if_neg hzero]
      split at h
      · next hdigit =>
          rcases Prod.mk.inj (Option.some.inj h) with ⟨rfl, rfl⟩
          have hrun := takeWhile_isDigit_append hrest (c :: t)
          rw [List.cons_append] at hrun
          rw [if_pos hdigit, hrun.1, hrun.2]
      · exact absurd h (Option.some_ne_none _).symm

theorem fractionPart_append (hrest : Ends rest) (t : Text) :
    fractionPart (t ++ rest) = ((fractionPart t).1, (fractionPart t).2 ++ rest) := by
  unfold fractionPart
  split
  · next more heq =>
      cases t with
      | nil =>
          rw [List.nil_append] at heq
          rw [heq] at hrest
          rcases hrest.cons with hc | hc <;> exact absurd hc (by decide)
      | cons c t =>
          rw [List.cons_append] at heq
          rcases List.cons.inj heq with ⟨rfl, rfl⟩
          have hrun := takeWhile_isDigit_append hrest t
          simp only [hrun.1, hrun.2]
          split <;> rfl
  · next hpoint =>
      split
      · next more => exact absurd rfl (hpoint (more ++ rest))
      · rfl

/-- The sign of an exponent, and what comes after it. -/
def exponentSign : Text → Bool × Text
  | '-' :: more => (true, more)
  | '+' :: more => (false, more)
  | more => (false, more)

theorem exponentPart_cons (e : Char) (t : Text) :
    exponentPart (e :: t)
      = if e = 'e' || e = 'E' then
          if ((exponentSign t).2.takeWhile isDigit).isEmpty then (none, e :: t)
          else
            let n : Int := digitsValue ((exponentSign t).2.takeWhile isDigit)
            (some (if (exponentSign t).1 then -n else n), (exponentSign t).2.dropWhile isDigit)
        else (none, e :: t) := by
  unfold exponentPart exponentSign
  rfl

theorem exponentSign_append (hrest : Ends rest) (t : Text) :
    exponentSign (t ++ rest) = ((exponentSign t).1, (exponentSign t).2 ++ rest) := by
  cases t with
  | nil =>
      cases rest with
      | nil => rfl
      | cons c rest => rcases hrest.cons with rfl | rfl <;> rfl
  | cons c t =>
      by_cases hminus : c = '-'
      · rw [hminus]
        rfl
      by_cases hplus : c = '+'
      · rw [hplus]
        rfl
      have hsign : ∀ more, exponentSign (c :: more) = (false, c :: more) := fun more =>
        exponentSign.eq_3 (c :: more) (fun _ h => hminus (List.cons.inj h).1)
          fun _ h => hplus (List.cons.inj h).1
      rw [List.cons_append, hsign, hsign, List.cons_append]

theorem exponentPart_append (hrest : Ends rest) (t : Text) :
    exponentPart (t ++ rest) = ((exponentPart t).1, (exponentPart t).2 ++ rest) := by
  cases t with
  | nil =>
      cases rest with
      | nil => rfl
      | cons c rest => rcases hrest.cons with rfl | rfl <;> rfl
  | cons e t =>
      have hrun := takeWhile_isDigit_append hrest (exponentSign t).2
      rw [List.cons_append, exponentPart_cons, exponentPart_cons, exponentSign_append hrest, hrun.1,
        hrun.2]
      split
      · split <;> rfl
      · rfl

theorem readMagnitude_append (hrest : Ends rest) (opened opened' : Nat) (negative : Bool)
    {t after : Text} {value : Json} (h : readMagnitude opened negative t = .ok (value, after)) :
    readMagnitude opened' negative (t ++ rest) = .ok (value, after ++ rest) := by
  unfold readMagnitude at h ⊢
  split at h
  · exact absurd h (by simp only [reduceCtorEq, not_false_eq_true])
  next whole digits hwhole =>
  simp only [integerPart?_append hrest hwhole, fractionPart_append hrest,
    exponentPart_append hrest] at h ⊢
  split at h
  · next hinteger =>
      rw [if_pos hinteger]
      split at h
      · next hshort =>
          rw [if_pos hshort]
          rcases Prod.mk.inj (Except.ok.inj h) with ⟨rfl, rfl⟩
          rfl
      · exact absurd h (by simp only [reduceCtorEq, not_false_eq_true])
  · next hfloat =>
      rw [if_neg hfloat]
      rcases Prod.mk.inj (Except.ok.inj h) with ⟨rfl, rfl⟩
      rfl

theorem readNumber_append (hrest : Ends rest) {t after : Text} {value : Json}
    (h : readNumber t = .ok (value, after)) :
    readNumber (t ++ rest) = .ok (value, after ++ rest) := by
  unfold readNumber at h
  split at h
  · exact readMagnitude_append hrest _ _ true h
  · next hminus =>
      cases t with
      | nil => exact absurd h (by simp only [readMagnitude, integerPart?, reduceCtorEq,
          not_false_eq_true])
      | cons c t =>
          have hsame : readNumber (c :: t ++ rest)
              = readMagnitude (c :: t ++ rest).length false (c :: t ++ rest) :=
            readNumber.eq_2 _ fun more heq => hminus t (by rw [(List.cons.inj heq).1])
          rw [hsame]
          exact readMagnitude_append hrest _ _ false h

-- A word does not go on past the end of a value.
theorem isPrefixOf_append (hrest : Ends rest) (word t : Text)
    (hcomma : ',' ∉ word) (hline : '\n' ∉ word) :
    word.isPrefixOf (t ++ rest) = word.isPrefixOf t := by
  induction word generalizing t with
  | nil => rfl
  | cons w word ih =>
      cases t with
      | nil =>
          cases rest with
          | nil => rfl
          | cons c rest =>
              have hne : (w == c) = false := beq_eq_false_iff_ne.mpr fun heq => by
                rcases hrest.cons with hc | hc
                · exact hcomma (hc ▸ heq ▸ List.mem_cons_self)
                · exact hline (hc ▸ heq ▸ List.mem_cons_self)
              rw [List.nil_append, List.isPrefixOf_cons_cons, hne]
              rfl
      | cons c t =>
          rw [List.cons_append, List.isPrefixOf_cons_cons, List.isPrefixOf_cons_cons,
            ih t (mt (List.mem_cons_of_mem w) hcomma) (mt (List.mem_cons_of_mem w) hline)]

theorem constants_words :
    ∀ word ∈ constants.map (·.1), ',' ∉ word ∧ '\n' ∉ word := by
  decide

-- The same word is found.
theorem find?_constants_append (hrest : Ends rest) (t : Text) :
    (constants.find? fun (word, _) => word.isPrefixOf (t ++ rest))
      = constants.find? fun (word, _) => word.isPrefixOf t :=
  List.find?_congr fun constant hmem =>
    have hword := constants_words constant.1 (List.mem_map_of_mem hmem)
    isPrefixOf_append hrest constant.1 t hword.1 hword.2

/-- Reading leaves what can come after a value. -/
theorem readScalar_append (hrest : Ends rest) {t after : Text} {value : Json}
    (h : readScalar t = .ok (value, after)) :
    readScalar (t ++ rest) = .ok (value, after ++ rest) := by
  unfold readScalar at h ⊢
  rw [find?_constants_append hrest]
  cases hfound : constants.find? fun (word, _) => word.isPrefixOf t with
  | none =>
      rw [hfound] at h
      exact readNumber_append hrest h
  | some constant =>
      rw [hfound] at h
      have hword := List.find?_some hfound
      have hlength := (List.isPrefixOf_iff_prefix.mp hword).length_le
      rcases Prod.mk.inj (Except.ok.inj h) with ⟨rfl, rfl⟩
      simp only [List.drop_append_of_le_length hlength]

end Append

/-! ## Integers -/

theorem isDigit_of_mem_ofNat {n : Nat} {c : Char} (h : c ∈ Text.ofNat n) : isDigit c = true := by
  have hdigit := Nat.isDigit_of_mem_toDigits (by decide) (by decide) h
  exact hdigit

theorem digitsValue_ofNat (n : Nat) : digitsValue (Text.ofNat n) = n := by
  have h := Nat.ofDigitChars_ten_toDigits (n := n)
  rwa [Nat.ofDigitChars_eq_foldl] at h

-- A number above zero does not begin with a zero.
theorem ofNat_cons {n : Nat} (h : 0 < n) :
    ∃ c rest, Text.ofNat n = c :: rest ∧ c ≠ '0' := by
  induction n using Nat.strongRecOn with
  | ind n ih =>
      rw [Text.ofNat, Nat.toDigits_eq_if (by decide)]
      split
      · next hlt =>
          have hdigit : ∀ n < 10, 0 < n → n.digitChar ≠ '0' := by decide
          exact ⟨n.digitChar, [], rfl, hdigit n hlt h⟩
      · next hge =>
          rcases ih (n / 10) (by omega) (by omega) with ⟨c, rest, heq, hc⟩
          rw [Text.ofNat] at heq
          rw [heq]
          exact ⟨c, rest ++ [(n % 10).digitChar], rfl, hc⟩

theorem integerPart?_ofNat (n : Nat) : integerPart? (Text.ofNat n) = some (Text.ofNat n, []) := by
  by_cases hzero : n = 0
  · rw [hzero]
    rfl
  · rcases ofNat_cons (Nat.pos_of_ne_zero hzero) with ⟨c, rest, heq, hc⟩
    have hdigits : ∀ d ∈ c :: rest, isDigit d = true := fun d hd =>
      isDigit_of_mem_ofNat (n := n) (by rwa [heq])
    rw [heq, integerPart?, if_neg hc, if_pos (hdigits c List.mem_cons_self),
      List.takeWhile_eq_self_iff.mpr hdigits, List.dropWhile_eq_nil_iff.mpr hdigits]

theorem readMagnitude_ofNat (opened : Nat) (negative : Bool) (n : Nat)
    (h : Text.isShortNumeral (Text.ofNat n) = true) :
    readMagnitude opened negative (Text.ofNat n)
      = .ok (.int (if negative then -(n : Int) else n), []) := by
  unfold readMagnitude
  simp only [integerPart?_ofNat, fractionPart, exponentPart, Option.isNone_none, Bool.and_self,
    if_true, h, digitsValue_ofNat]

-- No word begins like a number.
theorem find?_constants_digit (c : Char) (rest : Text) (h : isDigit c = true) :
    (constants.find? fun (word, _) => word.isPrefixOf (c :: rest)) = none
      ∧ (constants.find? fun (word, _) => word.isPrefixOf ('-' :: c :: rest)) = none := by
  have hne : ∀ d, isDigit d = false → d ≠ c := fun d hd heq =>
    absurd (hd.symm.trans (heq ▸ h)) Bool.false_ne_true
  constructor
  · simp [constants, hne 'n' (by decide), hne 't' (by decide), hne 'f' (by decide),
      hne 'N' (by decide), hne 'I' (by decide), hne '-' (by decide)]
  · simp [constants, hne 'I' (by decide)]

/-- An integer that is not too long is read back. -/
theorem readScalar_ofInt (n : Int) (h : Text.isShortNumeral (Text.ofNat n.natAbs) = true) :
    readScalar (Text.ofInt n) = .ok (.int n, []) := by
  have hfirst : ∀ n : Nat, ∃ c rest, Text.ofNat n = c :: rest ∧ isDigit c = true := by
    intro n
    cases heq : Text.ofNat n with
    | nil => exact absurd heq Nat.toDigits_ne_nil
    | cons c rest => exact ⟨c, rest, rfl, isDigit_of_mem_ofNat (n := n) (heq ▸ List.mem_cons_self)⟩
  cases n with
  | ofNat n =>
      rcases hfirst n with ⟨c, rest, heq, hdigit⟩
      have hnumber : readNumber (Text.ofNat n)
          = readMagnitude (Text.ofNat n).length false (Text.ofNat n) :=
        readNumber.eq_2 _ fun more hmore => by
          rw [heq] at hmore
          rw [(List.cons.inj hmore).1] at hdigit
          exact absurd hdigit (by decide)
      rw [Text.ofInt, readScalar, heq, (find?_constants_digit c rest hdigit).1, ← heq]
      exact hnumber.trans (readMagnitude_ofNat _ false n h)
  | negSucc n =>
      rcases hfirst (n + 1) with ⟨c, rest, heq, hdigit⟩
      rw [Text.ofInt, readScalar, heq, (find?_constants_digit c rest hdigit).2, ← heq]
      exact readMagnitude_ofNat _ true (n + 1) h

/-! ## Values that are words or numbers -/

/-- The character can be the first one of a word or a number. -/
def beginsScalar (c : Char) : Bool :=
  isDigit c || ['n', 't', 'f', 'N', 'I', '-'].elem c

theorem beginsScalar_of_readScalar {t after : Text} {value : Json}
    (h : readScalar t = .ok (value, after)) :
    ∃ c rest, t = c :: rest ∧ beginsScalar c = true := by
  have hwords : ∀ word ∈ constants.map (·.1), word.head?.any beginsScalar = true := by decide
  cases t with
  | nil => exact absurd h (by simp [readScalar, constants, readNumber, readMagnitude, integerPart?])
  | cons c rest =>
      refine ⟨c, rest, rfl, ?_⟩
      unfold readScalar at h
      split at h
      · next word _ heq =>
          have hword := hwords word (List.mem_map_of_mem (List.mem_of_find?_eq_some heq))
          have hmatch := List.find?_some heq
          have hprefix := List.isPrefixOf_iff_prefix.mp hmatch
          cases word with
          | nil => exact absurd hword Bool.false_ne_true
          | cons w word => exact (List.cons_prefix_cons.mp hprefix).1 ▸ hword
      · unfold readNumber at h
        split at h
        · next heq =>
            rw [(List.cons.inj heq).1]
            rfl
        · unfold readMagnitude at h
          split at h
          · exact absurd h (by simp only [reduceCtorEq, not_false_eq_true])
          · next hwhole =>
              rw [integerPart?] at hwhole
              rw [beginsScalar]
              split at hwhole
              · next hzero =>
                  rw [hzero]
                  rfl
              split at hwhole
              · next hdigit => rw [hdigit, Bool.true_or]
              · exact absurd hwhole (Option.some_ne_none _).symm

/-- A value that is read as a word or a number is no text, list or object. -/
theorem readValue_scalar (fuel room : Nat) {t after : Text} {value : Json}
    (h : readScalar t = .ok (value, after)) :
    readValue (fuel + 1) room t = .ok (value, after) := by
  rcases beginsScalar_of_readScalar h with ⟨c, rest, rfl, hc⟩
  have hne : ∀ d, beginsScalar d = false → ∀ more, c :: rest = d :: more → False := by
    rintro d hd more heq
    rw [(List.cons.inj heq).1] at hc
    exact absurd (hd.symm.trans hc) Bool.false_ne_true
  rw [readValue.eq_7 _ _ _ (hne _ (by decide)) (hne _ (by decide)) (hne _ (by decide))]
  exact h

end Json

end QueryDesk
