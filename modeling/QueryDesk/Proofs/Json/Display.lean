import Mathlib.Data.List.DropRight
import QueryDesk.Json.Display
import QueryDesk.Proofs.Json.Agree
import QueryDesk.Proofs.Json.Written
import QueryDesk.Proofs.Text.Split

/-!
# Words keep units apart

A word that is made of a value is the value's own text, or the value as diagnostics
show it. A text that came from a file keeps apart the units that stand alone in it,
and so does every piece that trimming or splitting leaves, since nothing is ever put
together again. What diagnostics show has no such unit at all: a unit is not
printable, so inside of a list it is shown by its number.

## Main definitions

* `Text.Ascii`: A text of the first 128 characters.
* `Text.Whole`: A text in which nothing stands for the first unit of a pair.

## Theorems

* `Text.Separate.trim`, `Text.Separate.of_mem_splitOn`: Pieces keep units apart.
* `Text.quoted_whole`: A text between quotes has no unit of a pair.
* `Json.shown_whole`: So is every value that is shown.
* `Json.word_separate`: The word of a value that came from a file keeps units apart.
-/

namespace QueryDesk

namespace Text

/-! ## Pieces of texts -/

instance (t : Text) : Decidable t.Separate :=
  inferInstanceAs (Decidable (List.IsChain _ t))

theorem Separate.trim {t : Text} (h : t.Separate) : t.trim.Separate :=
  -- Trimming drops a beginning, and then an end.
  List.IsChain.infix h
    (List.IsInfix.trans (List.rdropWhile_prefix isBlank _).isInfix
      (List.dropWhile_suffix isBlank).isInfix)

theorem infix_join (sep : Text) {part : Text} {parts : List Text} (h : part ∈ parts) :
    part <:+: join sep parts := by
  induction parts with
  | nil => exact absurd h List.not_mem_nil
  | cons first parts ih =>
      cases parts with
      | nil =>
          refine ⟨[], [], ?_⟩
          rw [List.mem_singleton.mp h, join, List.intercalate_singleton, List.nil_append,
            List.append_nil]
      | cons second parts =>
          rw [join, List.intercalate_cons_cons]
          rcases List.mem_cons.mp h with rfl | h
          · rw [List.append_assoc]
            exact (List.prefix_append _ _).isInfix
          · exact List.IsInfix.trans (ih h) (List.suffix_append _ _).isInfix

theorem Separate.of_mem_splitOn {t : Text} (h : t.Separate) {sep : Char} {part : Text}
    (hpart : part ∈ splitOn sep t) : part.Separate := by
  refine List.IsChain.infix h ?_
  have hinfix := infix_join [sep] hpart
  rwa [join_splitOn] at hinfix

/-! ## Texts without units -/

/-- All characters are among the first 128. -/
def Ascii (t : Text) : Prop :=
  ∀ c ∈ t, c.toNat < 0x80

instance (t : Text) : Decidable t.Ascii :=
  decidable_of_iff (t.all fun c => decide (c.toNat < 0x80)) (by
    simp only [List.all_eq_true, decide_eq_true_eq, Ascii])

/-- No character stands for the first unit of a pair. -/
def Whole (t : Text) : Prop :=
  ∀ c ∈ t, Json.isHighUnit (Unpaired.code c) = false

theorem Whole.separate {t : Text} (h : t.Whole) : t.Separate := by
  refine (List.pairwise_of_forall_mem_list fun c hc d _ hunits => ?_).isChain
  rw [h c hc] at hunits
  exact Bool.false_ne_true hunits.1

theorem whole_append {s t : Text} : Whole (s ++ t) ↔ s.Whole ∧ t.Whole :=
  List.forall_mem_append

theorem whole_cons {c : Char} {t : Text} :
    Whole (c :: t) ↔ Json.isHighUnit (Unpaired.code c) = false ∧ t.Whole :=
  List.forall_mem_cons

theorem whole_join {sep : Text} {parts : List Text} (hsep : sep.Whole)
    (h : ∀ part ∈ parts, part.Whole) : (join sep parts).Whole := by
  intro c hc
  rcases mem_join sep c parts hc with hc | ⟨part, hpart, hc⟩
  · exact hsep c hc
  · exact h part hpart c hc

-- A character below the units stands for itself.
theorem isHighUnit_code_of_lt {c : Char} (h : c.toNat < 0xd800) :
    Json.isHighUnit (Unpaired.code c) = false := by
  rw [Bool.eq_false_iff, ne_eq, Json.isHighUnit_iff]
  rcases Unpaired.code_cases c with ⟨_, heq⟩ | ⟨_, heq⟩
  · rw [Unpaired.distance] at heq
    omega
  · omega

theorem Ascii.whole {t : Text} (h : t.Ascii) : t.Whole := fun c hc =>
  isHighUnit_code_of_lt (Nat.lt_of_lt_of_le (h c hc) (by decide))

/-! ## Digits -/

theorem ascii_toDigits {base : Nat} (hbase : 1 < base) (hsmall : base ≤ 16) (n : Nat) :
    Ascii (Nat.toDigits base n) := by
  have hdigit : ∀ d < 16, (Nat.digitChar d).toNat < 0x80 := by decide
  induction n using Nat.strongRecOn with
  | ind n ih =>
      rcases Nat.lt_or_ge n base with hlt | hge
      · rw [Nat.toDigits_of_lt_base hlt]
        exact List.forall_mem_singleton.mpr (hdigit n (Nat.lt_of_lt_of_le hlt hsmall))
      · rw [Nat.toDigits_of_base_le hbase hge]
        exact List.forall_mem_append.mpr
          ⟨ih (n / base) (Nat.div_lt_self (Nat.lt_of_lt_of_le (Nat.lt_of_succ_lt hbase) hge) hbase),
            List.forall_mem_singleton.mpr (hdigit _
              (Nat.lt_of_lt_of_le (Nat.mod_lt n (Nat.lt_of_succ_lt hbase)) hsmall))⟩

theorem ascii_ofInt (n : Int) : Ascii (ofInt n) := by
  cases n with
  | ofNat n => exact ascii_toDigits (by decide) (by decide) n
  | negSucc n =>
      exact List.forall_mem_cons.mpr ⟨by decide, ascii_toDigits (by decide) (by decide) (n + 1)⟩

theorem ascii_hexEscape (c : Char) : Ascii (hexEscape c) := by
  have hhex : ∀ width n, Ascii (hex width n) := fun width n =>
    List.forall_mem_append.mpr
      ⟨fun d hd => List.eq_of_mem_replicate hd ▸ by decide,
        ascii_toDigits (by decide) (by decide) n⟩
  have hescape : ∀ mark : Char, mark.toNat < 0x80 → ∀ width n,
      Ascii ('\\' :: mark :: hex width n) := fun mark hmark width n =>
    List.forall_mem_cons.mpr ⟨by decide, List.forall_mem_cons.mpr ⟨hmark, hhex width n⟩⟩
  unfold hexEscape
  simp only
  split
  · exact hescape _ (by decide) _ _
  · split
    · exact hescape _ (by decide) _ _
    · exact hescape _ (by decide) _ _

/-! ## Texts between quotes -/

-- The stand-ins are in a range of characters that are not printable.
theorem isPrintable_of_unit {c : Char} (h : Json.isHighUnit (Unpaired.code c) = true) :
    isPrintable c = false := by
  rw [Json.isHighUnit_iff] at h
  have hrange : 0x3134b ≤ c.toNat ∧ c.toNat ≤ 0xe00ff := by
    rcases Unpaired.code_cases c with ⟨_, heq⟩ | ⟨hunit, _⟩
    · rw [Unpaired.distance] at heq
      omega
    · rw [Unpaired.isUnit, Bool.and_eq_false_iff, decide_eq_false_iff_not,
        decide_eq_false_iff_not] at hunit
      omega
  have hmem : (0x3134b, 0xe00ff) ∈ hiddenRanges6 := by decide
  rw [isPrintable, Bool.not_eq_false', List.any_eq_true]
  refine ⟨hiddenRanges6, by simp only [hiddenRanges, List.mem_cons, true_or, or_true], ?_⟩
  rw [List.any_eq_true]
  refine ⟨_, hmem, ?_⟩
  rw [Bool.and_eq_true, decide_eq_true_eq, decide_eq_true_eq]
  exact hrange

theorem whole_quotedChar {mark : Char} (hmark : mark.toNat < 0x80) (c : Char) :
    (quotedChar mark c).Whole := by
  have hself : ∀ d : Char, d.toNat < 0x80 → Whole [d] := fun d hd =>
    Ascii.whole (List.forall_mem_singleton.mpr hd)
  have hescape : ∀ d : Char, d.toNat < 0x80 → Whole ['\\', d] := fun d hd =>
    whole_cons.mpr ⟨isHighUnit_code_of_lt (by decide), hself d hd⟩
  unfold quotedChar
  split
  · next hescaped =>
      rw [Bool.or_eq_true, decide_eq_true_eq, decide_eq_true_eq] at hescaped
      rcases hescaped with rfl | rfl
      · exact hescape c hmark
      · exact hescape '\\' (by decide)
  · repeat' split
    · exact hescape 'n' (by decide)
    · exact hescape 'r' (by decide)
    · exact hescape 't' (by decide)
    · next hprintable =>
        refine List.forall_mem_singleton.mpr (Bool.eq_false_iff.mpr fun hunit => ?_)
        rw [isPrintable_of_unit hunit] at hprintable
        exact Bool.false_ne_true hprintable
    · exact (ascii_hexEscape c).whole

/-- A text between quotes has no unit of a pair. -/
theorem quoted_whole (t : Text) : t.quoted.Whole := by
  have hmark : (quoteMark t).toNat < 0x80 := by
    unfold quoteMark
    split
    · decide
    · decide
  have hend : Whole [quoteMark t] := Ascii.whole (List.forall_mem_singleton.mpr hmark)
  refine whole_append.mpr ⟨whole_cons.mpr ⟨hend _ List.mem_cons_self, ?_⟩, hend⟩
  intro c hc
  rcases List.mem_flatMap.mp hc with ⟨d, _, hc⟩
  exact whole_quotedChar hmark d c hc

end Text

namespace Binary64

open Text

/-! ## Numbers -/

theorem ascii_place {digits : Text} (h : digits.Ascii) (point : Int) :
    Ascii (place digits point) := by
  have hzeros : ∀ n, Ascii (List.replicate n '0') := fun n c hc =>
    List.eq_of_mem_replicate hc ▸ by decide
  have htake : ∀ n, Ascii (digits.take n) := fun n c hc => h c (List.mem_of_mem_take hc)
  have hdrop : ∀ n, Ascii (digits.drop n) := fun n c hc => h c (List.mem_of_mem_drop hc)
  have hone : ∀ c : Char, c.toNat < 0x80 → Ascii [c] := fun c hc =>
    List.forall_mem_singleton.mpr hc
  have happend : ∀ {s t : Text}, s.Ascii → t.Ascii → Ascii (s ++ t) := fun hs ht =>
    List.forall_mem_append.mpr ⟨hs, ht⟩
  have hpower : ∀ n, Ascii (Nat.toDigits 10 n) := ascii_toDigits (by decide) (by decide)
  unfold place
  split
  · split
    · exact happend (happend (happend (hone _ (by decide)) (hone _ (by decide))) (hzeros _)) h
    · refine happend (happend (happend (htake _) (hzeros _)) (hone _ (by decide))) ?_
      split
      · exact hone _ (by decide)
      · exact hdrop _
  · refine happend (happend (happend (happend (htake _) ?_) (hone _ (by decide))) ?_) ?_
    · split
      · exact fun c hc => absurd hc List.not_mem_nil
      · exact happend (hone _ (by decide)) (hdrop _)
    · split
      · exact hone _ (by decide)
      · exact hone _ (by decide)
    · split
      · exact happend (hone _ (by decide)) (hpower _)
      · exact hpower _

theorem ascii_shortest (mantissa shift : Nat) : Ascii (shortest mantissa shift).1 := by
  unfold shortest
  simp only
  generalize shortestFrom mantissa shift _ _ _ = found
  have hdigits : Ascii (Nat.toDigits 10 found.1) := ascii_toDigits (by decide) (by decide) _
  intro c hc
  exact hdigits c
    (List.mem_reverse.mp ((List.dropWhile_suffix _).subset (List.mem_reverse.mp hc)))

/-- A number is written with the first 128 characters. -/
theorem ascii_text {nan inf : Text} (hnan : nan.Ascii) (hinf : inf.Ascii) (x : Binary64) :
    Ascii (x.text nan inf) := by
  have hsigned : ∀ (negative : Bool) {t : Text}, t.Ascii →
      Ascii (if negative then '-' :: t else t) := by
    intro negative t ht
    split
    · exact List.forall_mem_cons.mpr ⟨by decide, ht⟩
    · exact ht
  cases x with
  | nan => exact hnan
  | infinity negative => exact hsigned negative hinf
  | finite negative mantissa shift =>
      refine hsigned negative ?_
      simp only
      split
      · decide
      · exact ascii_place (ascii_shortest mantissa shift) _

end Binary64

namespace Json

open Text

theorem shownItems_eq (items : List Json) : shownItems items = items.map shown := by
  induction items with
  | nil => rfl
  | cons item items ih => rw [shownItems, ih, List.map_cons]

theorem shownFields_eq (fields : List (Text × Json)) :
    shownFields fields = fields.map fun field => field.1.quoted ++ ": " ++ shown field.2 := by
  induction fields with
  | nil => rfl
  | cons field fields ih => rw [shownFields, ih, List.map_cons]

/-- A value that is shown has no unit of a pair. -/
theorem shown_whole (value : Json) : (shown value).Whole := by
  induction value using Json.induction with
  | null => exact Ascii.whole (by decide)
  | bool b =>
      rw [shown]
      split
      · exact Ascii.whole (by decide)
      · exact Ascii.whole (by decide)
  | int n => exact (ascii_ofInt n).whole
  | float x =>
      exact (Binary64.ascii_text (by decide) (by decide) x).whole
  | str t => exact quoted_whole t
  | arr items ih =>
      rw [shown, shownItems_eq]
      refine whole_append.mpr ⟨whole_cons.mpr ⟨isHighUnit_code_of_lt (by decide),
        whole_join (Ascii.whole (by decide)) ?_⟩, Ascii.whole (by decide)⟩
      exact List.forall_mem_map.mpr ih
  | obj fields ih =>
      rw [shown, shownFields_eq]
      refine whole_append.mpr ⟨whole_cons.mpr ⟨isHighUnit_code_of_lt (by decide),
        whole_join (Ascii.whole (by decide)) ?_⟩, Ascii.whole (by decide)⟩
      exact List.forall_mem_map.mpr fun field hfield => whole_append.mpr
        ⟨whole_append.mpr ⟨quoted_whole field.1, Ascii.whole (by decide)⟩, ih field hfield⟩

/-- The word of a value that keeps units apart keeps them apart. -/
theorem word_separate {value : Json} (h : value.Faithful) : value.word.Separate := by
  unfold word
  split
  · cases h with
    | str t separate => exact separate
    | null | bool | int | float | arr | obj => exact (shown_whole _).separate
  · exact .nil

end Json

end QueryDesk
