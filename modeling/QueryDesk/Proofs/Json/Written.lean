import QueryDesk.Proofs.Json.Scalar
import QueryDesk.Proofs.Json.Sorted
import QueryDesk.Proofs.Json.Units

/-!
# Values read back

What is written is read back, with the fields of every object in the order of their
keys. Two things are asked of a value for it. Its fractions have to come back from
their shortest digits, and its texts have to keep units apart. A regular value, with
no key twice and no long integer, needs nothing else.

The reader is bounded twice, by the number of its steps and by the depth it goes to.
The first bound is never met: a step is taken for a value, an item or a field, and
each of them has characters of its own in the text. The second one counts the lists
and objects around the place the reader is at.

## Main definitions

* `Json.Faithful`: A value whose fractions and texts are read back.
* `Json.Back`: A value is read back wherever it stands in a file.
* `Json.Deepens`: What the reader gives it also gives when it may go deeper.

## Theorems

* `readItems_printed`, `readFields_printed`: Items and fields that are read back one
  by one are read back together.
* `back`: A regular value whose fractions and texts are read back is read back.
* `readWithin_of_le`: What is read is also read when the reader may go deeper.
* `read_print`: What is written is read back.
* `eq_sorted_of_read_print`: Nothing else is read from what is written.
-/

namespace QueryDesk

namespace Json

/-- A value whose fractions come back from their shortest digits and whose texts
    keep units apart. -/
inductive Faithful : Json → Prop
  | null : Faithful .null
  | bool (b : Bool) : Faithful (.bool b)
  | int (n : Int) : Faithful (.int n)
  | float (x : Binary64) (back : readScalar (floatText x) = .ok (.float x, [])) :
      Faithful (.float x)
  | str (t : Text) (separate : t.Separate) : Faithful (.str t)
  | arr (items : List Json) (inside : ∀ item ∈ items, Faithful item) : Faithful (.arr items)
  | obj (fields : List (Text × Json)) (keys : ∀ field ∈ fields, field.1.Separate)
      (inside : ∀ field ∈ fields, Faithful field.2) : Faithful (.obj fields)

theorem Faithful.sorted {value : Json} (h : value.Faithful) : value.sorted.Faithful := by
  induction h with
  | null => exact .null
  | bool b => exact .bool b
  | int n => exact .int n
  | float x back => exact .float x back
  | str t separate => exact .str t separate
  | arr items _ ih =>
      rw [sorted_arr]
      exact .arr _ (List.forall_mem_map.mpr ih)
  | obj fields keys _ ih =>
      rw [sorted_obj]
      refine .obj _ (fun field hmem => ?_) fun field hmem => ?_
      all_goals
        rw [(sortByKey_perm _).mem_iff] at hmem
        rcases List.mem_map.mp hmem with ⟨other, hother, rfl⟩
      · exact keys other hother
      · exact ih other hother

/-! ## What is written -/

/-- A field as it stands at a depth of nesting. -/
def fieldText (depth : Nat) (field : Text × Json) : Text :=
  escape field.1 ++ ": " ++ printAt depth field.2

theorem printItems_eq (depth : Nat) (items : List Json) :
    printItems depth items = items.map (printAt depth) := by
  induction items with
  | nil => rfl
  | cons item items ih => rw [printItems, ih, List.map_cons]

theorem printFields_eq (depth : Nat) (fields : List (Text × Json)) :
    printFields depth fields = fields.map fun field => (field.1, printAt depth field.2) := by
  induction fields with
  | nil => rfl
  | cons field fields ih =>
      rcases field with ⟨key, value⟩
      rw [printFields, ih, List.map_cons]

theorem printAt_arr (depth : Nat) (items : List Json) :
    printAt depth (.arr items)
      = bracketed depth '[' ']' (items.map (printAt (depth + 1))) := by
  rw [printAt, printItems_eq]

theorem printAt_obj (depth : Nat) (fields : List (Text × Json)) :
    printAt depth (.obj fields)
      = bracketed depth '\x7b' '\x7d' ((sortByKey fields).map (fieldText (depth + 1))) := by
  rw [printAt, printFields_eq, ← map_sortByKey (fun field => printAt (depth + 1) field.2) _
    (fun _ => rfl), List.map_map]
  rfl

/-- The end of a line, and the blanks the next one begins with at a depth. -/
def newLine (depth : Nat) : Text :=
  '\n' :: List.replicate (2 * depth) ' '

/-- Lines one level deeper than a depth, up to the closing bracket, and what comes
    after it. -/
def linesTo (depth : Nat) (parts : List Text) (closing : Char) (rest : Text) : Text :=
  Text.join (',' :: newLine (depth + 1)) parts ++ (newLine depth ++ closing :: rest)

theorem bracketed_append (depth : Nat) (opening closing : Char) {parts : List Text}
    (h : parts ≠ []) (rest : Text) :
    bracketed depth opening closing parts ++ rest
      = opening :: (newLine (depth + 1) ++ linesTo depth parts closing rest) := by
  rw [bracketed, if_neg (by rwa [List.isEmpty_iff])]
  simp only [newLine, linesTo, List.cons_append, List.append_assoc, List.nil_append]

theorem linesTo_singleton (depth : Nat) (part : Text) (closing : Char) (rest : Text) :
    linesTo depth [part] closing rest = part ++ (newLine depth ++ closing :: rest) := by
  rw [linesTo, Text.join, List.intercalate_singleton]

theorem linesTo_cons_cons (depth : Nat) (part other : Text) (parts : List Text) (closing : Char)
    (rest : Text) :
    linesTo depth (part :: other :: parts) closing rest
      = part ++ ',' :: (newLine (depth + 1) ++ linesTo depth (other :: parts) closing rest) := by
  rw [linesTo, Text.join, List.intercalate_cons_cons]
  simp only [linesTo, Text.join, List.cons_append, List.append_assoc]

theorem skip_newLine (depth : Nat) (t : Text) : skip (newLine depth ++ t) = skip t := by
  have hblanks : ∀ n, skip (List.replicate n ' ' ++ t) = skip t := by
    intro n
    induction n with
    | zero => rfl
    | succ n ih => exact ih
  exact hblanks (2 * depth)

/-! ## How values begin -/

/-- The text begins like a value and not like anything else the reader looks for. -/
def Begins (t : Text) : Prop :=
  ∃ c rest, t = c :: rest ∧ isSpace c = false ∧ c ≠ ']' ∧ c ≠ '\ufeff'

theorem Begins.append {t : Text} (h : Begins t) (rest : Text) : Begins (t ++ rest) := by
  rcases h with ⟨c, more, rfl, hc⟩
  exact ⟨c, more ++ rest, rfl, hc⟩

theorem Begins.skip {t : Text} (h : Begins t) : skip t = t := by
  rcases h with ⟨c, more, rfl, hc, _⟩
  rw [Json.skip, List.dropWhile_cons, if_neg (by rw [hc]; exact Bool.false_ne_true)]

theorem Begins.length {t : Text} (h : Begins t) : 0 < t.length := by
  rcases h with ⟨c, more, rfl, _⟩
  exact Nat.succ_pos _

theorem begins_of_readScalar {t after : Text} {value : Json}
    (h : readScalar t = .ok (value, after)) : Begins t := by
  rcases beginsScalar_of_readScalar h with ⟨c, rest, rfl, hc⟩
  have hne : ∀ d, beginsScalar d = false → c ≠ d := by
    rintro d hd rfl
    exact absurd (hd.symm.trans hc) Bool.false_ne_true
  refine ⟨c, rest, rfl, ?_, hne _ (by decide), hne _ (by decide)⟩
  rw [isSpace, decide_eq_false (hne ' ' (by decide)), decide_eq_false (hne '\t' (by decide)),
    decide_eq_false (hne '\n' (by decide)), decide_eq_false (hne '\r' (by decide))]
  rfl

theorem begins_bracketed (depth : Nat) (opening closing : Char) (parts : List Text)
    (hspace : isSpace opening = false) (hbracket : opening ≠ ']') (hmark : opening ≠ '\ufeff') :
    Begins (bracketed depth opening closing parts) := by
  cases parts with
  | nil => exact ⟨opening, [closing], rfl, hspace, hbracket, hmark⟩
  | cons part parts =>
      have h := bracketed_append depth opening closing (List.cons_ne_nil part parts) []
      rw [List.append_nil] at h
      exact ⟨opening, _, h, hspace, hbracket, hmark⟩

/-! ## Lists and objects -/

/-- The value is read back wherever it stands in a file. -/
structure Back (value : Json) : Prop where
  begins : ∀ depth, Begins (printAt depth value)
  read : ∀ (depth fuel room : Nat) (rest : Text), Ends rest →
    2 * (printAt depth value).length ≤ fuel → value.depth ≤ room →
    readValue fuel room (printAt depth value ++ rest) = .ok (value.sorted, rest)

-- What follows the last item or field of a list or an object.
theorem skip_closing (depth : Nat) {closing : Char} (h : isSpace closing = false) (rest : Text) :
    skip (newLine depth ++ closing :: rest) = closing :: rest := by
  rw [skip_newLine, skip, List.dropWhile_cons, if_neg (by rw [h]; exact Bool.false_ne_true)]

-- What follows any other one.
theorem skip_comma (rest : Text) : skip (',' :: rest) = ',' :: rest := rfl

theorem begins_linesTo (depth : Nat) {part : Text} (h : Begins part) (parts : List Text)
    (closing : Char) (rest : Text) : Begins (linesTo depth (part :: parts) closing rest) := by
  cases parts with
  | nil =>
      rw [linesTo_singleton]
      exact h.append _
  | cons other parts =>
      rw [linesTo_cons_cons]
      exact h.append _

-- What follows the line before an item or a field.
theorem skip_linesTo (depth : Nat) {part : Text} (h : Begins part) (parts : List Text)
    (closing : Char) (rest : Text) :
    skip (newLine (depth + 1) ++ linesTo depth (part :: parts) closing rest)
      = linesTo depth (part :: parts) closing rest := by
  rw [skip_newLine, (begins_linesTo depth h parts closing rest).skip]

theorem length_join_cons (sep part other : Text) (parts : List Text) :
    (Text.join sep (part :: other :: parts)).length
      = part.length + sep.length + (Text.join sep (other :: parts)).length := by
  rw [Text.join, List.intercalate_cons_cons, List.length_append, List.length_append]
  rfl

theorem Ends.newLine (depth : Nat) (rest : Text) : Ends (newLine depth ++ rest) := Ends.line _

/-! The steps of the reader inside a list or an object, by what comes next. -/

section Steps

variable {fuel room : Nat} {t rest more after : Text} {key : Text} {value : Json}

theorem readItems_last (hvalue : readValue fuel room t = .ok (value, rest))
    (hrest : skip rest = ']' :: after) : readItems (fuel + 1) room t = .ok ([value], after) := by
  rw [readItems.eq_2, hvalue]
  simp only [hrest]

theorem readItems_more {items : List Json} (hvalue : readValue fuel room t = .ok (value, rest))
    (hrest : skip rest = ',' :: more)
    (hmore : readItems fuel room (skip more) = .ok (items, after)) :
    readItems (fuel + 1) room t = .ok (value :: items, after) := by
  rw [readItems.eq_2, hvalue]
  simp only [hrest, hmore]

theorem readFields_last {opened colon : Text} (hkey : readString opened = .ok (key, colon))
    (hcolon : skip colon = ':' :: t) (hvalue : readValue fuel room (skip t) = .ok (value, rest))
    (hrest : skip rest = '\x7d' :: after) :
    readFields (fuel + 1) room ('"' :: opened) = .ok ([(key, value)], after) := by
  rw [readFields.eq_2, hkey]
  simp only [hcolon, hvalue, hrest]

theorem readFields_more {opened colon : Text} {fields : List (Text × Json)}
    (hkey : readString opened = .ok (key, colon)) (hcolon : skip colon = ':' :: t)
    (hvalue : readValue fuel room (skip t) = .ok (value, rest)) (hrest : skip rest = ',' :: more)
    (hmore : readFields fuel room (skip more) = .ok (fields, after)) :
    readFields (fuel + 1) room ('"' :: opened) = .ok ((key, value) :: fields, after) := by
  rw [readFields.eq_2, hkey]
  simp only [hcolon, hvalue, hrest, hmore]

end Steps

/-- Items that are read back one by one are read back together. -/
theorem readItems_printed (depth room : Nat) (rest : Text) {items : List Json}
    (hback : ∀ item ∈ items, item.Back) (hdepth : ∀ item ∈ items, item.depth ≤ room)
    (hitems : items ≠ []) (fuel : Nat)
    (hfuel : 2 * (Text.join (',' :: newLine (depth + 1))
      (items.map (printAt (depth + 1)))).length + 1 ≤ fuel) :
    readItems fuel room (linesTo depth (items.map (printAt (depth + 1))) ']' rest)
      = .ok (items.map sorted, rest) := by
  induction items generalizing fuel with
  | nil => exact absurd rfl hitems
  | cons item items ih =>
      rw [List.forall_mem_cons] at hback hdepth
      cases fuel with
      | zero => exact absurd hfuel (Nat.not_succ_le_zero _)
      | succ fuel =>
          cases items with
          | nil =>
              rw [List.map_singleton, Text.join, List.intercalate_singleton] at hfuel
              rw [List.map_singleton, linesTo_singleton]
              exact readItems_last
                (hback.1.read (depth + 1) fuel room _ (Ends.newLine _ _) (by omega) hdepth.1)
                (skip_closing depth (by decide) rest)
          | cons other items =>
              rw [List.map_cons, List.map_cons, length_join_cons, List.length_cons] at hfuel
              have hrest := ih hback.2 hdepth.2 (List.cons_ne_nil _ _) fuel
                (by rw [List.map_cons]; omega)
              rw [List.map_cons] at hrest
              rw [List.map_cons, List.map_cons, linesTo_cons_cons]
              refine readItems_more (hback.1.read (depth + 1) fuel room _ (Ends.comma _) (by omega)
                hdepth.1) (skip_comma _) ?_
              rw [skip_linesTo depth ((List.forall_mem_cons.mp hback.2).1.begins _)]
              exact hrest

theorem begins_fieldText (depth : Nat) (field : Text × Json) : Begins (fieldText depth field) :=
  ⟨'"', _, rfl, by decide, by decide, by decide⟩

-- A field with what comes after it.
theorem fieldText_append (depth : Nat) (field : Text × Json) (rest : Text) :
    fieldText depth field ++ rest
      = '"' :: (field.1.flatMap escapeChar
          ++ '"' :: ':' :: ' ' :: (printAt depth field.2 ++ rest)) := by
  rw [fieldText, escape]
  simp only [List.cons_append, List.append_assoc, List.nil_append]
  rfl

/-- Fields whose values are read back one by one are read back together. -/
theorem readFields_printed (depth room : Nat) (rest : Text) {fields : List (Text × Json)}
    (hback : ∀ field ∈ fields, field.2.Back) (hkeys : ∀ field ∈ fields, field.1.Separate)
    (hdepth : ∀ field ∈ fields, field.2.depth ≤ room) (hfields : fields ≠ []) (fuel : Nat)
    (hfuel : 2 * (Text.join (',' :: newLine (depth + 1))
      (fields.map (fieldText (depth + 1)))).length + 1 ≤ fuel) :
    readFields fuel room (linesTo depth (fields.map (fieldText (depth + 1))) '\x7d' rest)
      = .ok (fields.map sortedField, rest) := by
  have hlength : ∀ field : Text × Json, (printAt (depth + 1) field.2).length
      ≤ (fieldText (depth + 1) field).length := fun field => by
    rw [fieldText, List.length_append]
    omega
  have hskip : ∀ field : Text × Json, field.2.Back → ∀ rest,
      skip (' ' :: (printAt (depth + 1) field.2 ++ rest)) = printAt (depth + 1) field.2 ++ rest :=
    fun field h rest => ((h.begins (depth + 1)).append rest).skip
  induction fields generalizing fuel with
  | nil => exact absurd rfl hfields
  | cons field fields ih =>
      rw [List.forall_mem_cons] at hback hkeys hdepth
      have hfirst := hlength field
      cases fuel with
      | zero => exact absurd hfuel (Nat.not_succ_le_zero _)
      | succ fuel =>
          cases fields with
          | nil =>
              rw [List.map_singleton, Text.join, List.intercalate_singleton] at hfuel
              rw [List.map_singleton, linesTo_singleton, fieldText_append]
              refine readFields_last (readString_escape hkeys.1 _) rfl ?_
                (skip_closing depth (by decide) rest)
              rw [hskip field hback.1]
              exact hback.1.read (depth + 1) fuel room _ (Ends.newLine _ _) (by omega) hdepth.1
          | cons other fields =>
              rw [List.map_cons, List.map_cons, length_join_cons, List.length_cons] at hfuel
              have hrest := ih hback.2 hkeys.2 hdepth.2 (List.cons_ne_nil _ _) fuel
                (by rw [List.map_cons]; omega)
              rw [List.map_cons] at hrest
              rw [List.map_cons, List.map_cons, linesTo_cons_cons, fieldText_append]
              have hvalue : ∀ rest, readValue fuel room
                  (skip (' ' :: (printAt (depth + 1) field.2 ++ ',' :: rest)))
                  = .ok (field.2.sorted, ',' :: rest) := fun rest => by
                rw [hskip field hback.1]
                exact hback.1.read (depth + 1) fuel room _ (Ends.comma rest) (by omega) hdepth.1
              refine readFields_more (readString_escape hkeys.1 _) rfl (hvalue _) (skip_comma _) ?_
              rw [skip_linesTo depth (begins_fieldText _ other)]
              exact hrest

/-! ## Every value -/

theorem back_scalar (value : Json) (hsorted : value.sorted = value)
    (h : ∀ depth, readScalar (printAt depth value) = .ok (value, [])) : Back value := by
  refine ⟨fun depth => begins_of_readScalar (h depth), fun depth fuel room rest hrest hfuel _ => ?_⟩
  have hlength := (begins_of_readScalar (h depth)).length
  cases fuel with
  | zero => omega
  | succ fuel =>
      rw [hsorted]
      exact readValue_scalar fuel room (readScalar_append hrest (h depth))

theorem back_str {t : Text} (h : t.Separate) : Back (.str t) := by
  refine ⟨fun depth => ⟨'"', _, rfl, by decide, by decide, by decide⟩,
    fun depth fuel room rest _ hfuel _ => ?_⟩
  cases fuel with
  | zero =>
      rw [printAt, escape] at hfuel
      exact absurd hfuel (Nat.not_succ_le_zero _)
  | succ fuel =>
      have htext : printAt depth (.str t) ++ rest
          = '"' :: (t.flatMap escapeChar ++ '"' :: rest) := by
        rw [printAt, escape]
        simp only [List.cons_append, List.append_assoc, List.nil_append]
      rw [htext, readValue.eq_2, readString_escape h]
      rfl

-- The text of a list or an object is longer than the lines between its brackets.
theorem length_bracketed (depth : Nat) (opening closing : Char) (parts : List Text) :
    (Text.join (',' :: newLine (depth + 1)) parts).length + 2
      ≤ (bracketed depth opening closing parts).length := by
  cases parts with
  | nil => exact Nat.le_refl 2
  | cons part parts =>
      have h := congrArg List.length
        (bracketed_append depth opening closing (List.cons_ne_nil part parts) [])
      rw [List.append_nil, List.length_cons, List.length_append, linesTo, List.length_append,
        List.length_append, List.length_cons] at h
      omega

theorem readValue_arr {fuel room : Nat} {t after : Text} {items : List Json}
    (hbegins : Begins (skip t)) (h : readItems fuel room (skip t) = .ok (items, after)) :
    readValue (fuel + 1) (room + 1) ('[' :: t) = .ok (.arr items, after) := by
  rcases hbegins with ⟨c, more, heq, _, hc, _⟩
  rw [readValue.eq_4]
  split
  · next hclosing =>
      rw [heq] at hclosing
      exact absurd (List.cons.inj hclosing).1 hc
  · rw [h]

theorem readValue_obj {fuel room : Nat} {t after : Text} {fields : List (Text × Json)}
    (h : readFields fuel room (skip t) = .ok (fields, after)) :
    readValue (fuel + 1) (room + 1) ('\x7b' :: t) = .ok (.obj (Table.ofEntries fields), after) := by
  rw [readValue.eq_6]
  split
  · next hclosing =>
      rw [hclosing] at h
      cases fuel <;> exact absurd h (by simp [readFields])
  · rw [h]

theorem back_arr {items : List Json} (h : ∀ item ∈ items, item.Back) : Back (.arr items) := by
  refine ⟨fun depth => ?_, fun depth fuel room rest _ hfuel hdepth => ?_⟩
  · rw [printAt_arr]
    exact begins_bracketed depth _ _ _ (by decide) (by decide) (by decide)
  rw [printAt_arr] at hfuel ⊢
  rw [sorted_arr]
  have hlength := length_bracketed depth '[' ']' (items.map (printAt (depth + 1)))
  cases room with
  | zero => exact absurd hdepth (Nat.not_succ_le_zero _)
  | succ room =>
      cases fuel with
      | zero => omega
      | succ fuel =>
          cases items with
          | nil => rfl
          | cons item items =>
              have hitems := readItems_printed depth room rest h
                ((depth_arr_le_iff _ _).mp hdepth) (List.cons_ne_nil _ _) fuel (by omega)
              have hfirst := (List.forall_mem_cons.mp h).1.begins (depth + 1)
              rw [List.map_cons] at hitems ⊢
              rw [bracketed_append _ _ _ (List.cons_ne_nil _ _)]
              have hskip := skip_linesTo depth hfirst (items.map (printAt (depth + 1))) ']' rest
              refine readValue_arr ?_ ?_
              · rw [hskip]
                exact begins_linesTo depth hfirst _ _ _
              · rw [hskip]
                exact hitems

theorem back_obj {fields : List (Text × Json)} (hnodup : (fields.map (·.1)).Nodup)
    (hkeys : ∀ field ∈ fields, field.1.Separate) (h : ∀ field ∈ fields, field.2.Back) :
    Back (.obj fields) := by
  have hmem : ∀ field ∈ sortByKey fields, field ∈ fields := fun field =>
    (sortByKey_perm fields).mem_iff.mp
  refine ⟨fun depth => ?_, fun depth fuel room rest _ hfuel hdepth => ?_⟩
  · rw [printAt_obj]
    exact begins_bracketed depth _ _ _ (by decide) (by decide) (by decide)
  rw [printAt_obj] at hfuel ⊢
  rw [sorted_obj, ← map_sortedField_sortByKey]
  have hentries : Table.ofEntries ((sortByKey fields).map sortedField)
      = (sortByKey fields).map sortedField := by
    refine Table.update_of_nodup ?_
    rw [List.nil_append, keys_sortedField, ((sortByKey_perm fields).map _).nodup_iff]
    exact hnodup
  have hlength := length_bracketed depth '\x7b' '\x7d'
    ((sortByKey fields).map (fieldText (depth + 1)))
  rw [← hentries]
  cases room with
  | zero => exact absurd hdepth (Nat.not_succ_le_zero _)
  | succ room =>
      cases fuel with
      | zero => omega
      | succ fuel =>
          have hinside := (depth_obj_le_iff _ _).mp hdepth
          cases hsorted : sortByKey fields with
          | nil => rfl
          | cons field others =>
              rw [hsorted] at hmem hfuel hlength
              have hread := readFields_printed depth room rest (fun other hother =>
                h other (hmem other hother)) (fun other hother => hkeys other (hmem other hother))
                (fun other hother => hinside other (hmem other hother)) (List.cons_ne_nil _ _) fuel
                (by omega)
              have hfirst := begins_fieldText (depth + 1) field
              rw [List.map_cons] at hread ⊢
              rw [bracketed_append _ _ _ (List.cons_ne_nil _ _)]
              have hskip :=
                skip_linesTo depth hfirst (others.map (fieldText (depth + 1))) '\x7d' rest
              refine readValue_obj ?_
              rw [hskip]
              exact hread

/-- A regular value whose fractions and texts are read back is read back. -/
theorem back {value : Json} (hregular : value.Regular) (hfaithful : value.Faithful) :
    value.Back := by
  induction hfaithful with
  | null => exact back_scalar .null rfl fun _ => rfl
  | bool b => exact back_scalar (.bool b) rfl fun _ => by cases b <;> rfl
  | int n =>
      cases hregular with
      | int _ short => exact back_scalar (.int n) rfl fun _ => readScalar_ofInt n short
  | float x back => exact back_scalar (.float x) rfl fun _ => back
  | str t separate => exact back_str separate
  | arr items _ ih =>
      cases hregular with
      | arr _ inside => exact back_arr fun item hmem => ih item hmem (inside item hmem)
  | obj fields keys _ ih =>
      cases hregular with
      | obj _ nodup inside =>
          exact back_obj nodup keys fun field hmem => ih field hmem (inside field hmem)

/-! ## The depth the reader goes to -/

/-- Within a number of steps, what the reader gives it also gives when it may go
    deeper. -/
structure Deepens (fuel : Nat) : Prop where
  value : ∀ {room more : Nat} {t after : Text} {value : Json}, room ≤ more →
    readValue fuel room t = .ok (value, after) → readValue fuel more t = .ok (value, after)
  items : ∀ {room more : Nat} {t after : Text} {items : List Json}, room ≤ more →
    readItems fuel room t = .ok (items, after) → readItems fuel more t = .ok (items, after)
  fields : ∀ {room more : Nat} {t after : Text} {fields : List (Text × Json)}, room ≤ more →
    readFields fuel room t = .ok (fields, after) → readFields fuel more t = .ok (fields, after)

namespace Deepens

variable {fuel room more : Nat} {t after : Text}

theorem value_succ (h : Deepens fuel) (hle : room ≤ more) {value : Json}
    (hread : readValue (fuel + 1) room t = .ok (value, after)) :
    readValue (fuel + 1) more t = .ok (value, after) := by
  unfold readValue at hread ⊢
  split at hread
  · exact hread
  · split at hread
    · exact absurd hread (by simp only [reduceCtorEq, not_false_eq_true])
    next room =>
    cases more with
    | zero => exact absurd hle (Nat.not_succ_le_zero room)
    | succ more =>
        simp only
        split at hread
        · exact hread
        · split at hread
          · next hitems =>
              rw [h.items (Nat.le_of_succ_le_succ hle) hitems]
              exact hread
          · exact absurd hread (by simp only [reduceCtorEq, not_false_eq_true])
  · split at hread
    · exact absurd hread (by simp only [reduceCtorEq, not_false_eq_true])
    next room =>
    cases more with
    | zero => exact absurd hle (Nat.not_succ_le_zero room)
    | succ more =>
        simp only
        split at hread
        · exact hread
        · split at hread
          · next hfields =>
              rw [h.fields (Nat.le_of_succ_le_succ hle) hfields]
              exact hread
          · exact absurd hread (by simp only [reduceCtorEq, not_false_eq_true])
  · exact hread

theorem items_succ (h : Deepens fuel) (hle : room ≤ more) {items : List Json}
    (hread : readItems (fuel + 1) room t = .ok (items, after)) :
    readItems (fuel + 1) more t = .ok (items, after) := by
  unfold readItems at hread ⊢
  split at hread
  · exact absurd hread (by simp only [reduceCtorEq, not_false_eq_true])
  next hvalue =>
  rw [h.value hle hvalue]
  simp only
  split at hread
  · exact hread
  · split at hread
    · next hmore =>
        rw [h.items hle hmore]
        exact hread
    · exact absurd hread (by simp only [reduceCtorEq, not_false_eq_true])
  · exact absurd hread (by simp only [reduceCtorEq, not_false_eq_true])

theorem fields_succ (h : Deepens fuel) (hle : room ≤ more) {fields : List (Text × Json)}
    (hread : readFields (fuel + 1) room t = .ok (fields, after)) :
    readFields (fuel + 1) more t = .ok (fields, after) := by
  unfold readFields at hread ⊢
  split at hread
  · split at hread
    · exact absurd hread (by simp only [reduceCtorEq, not_false_eq_true])
    split at hread
    · split at hread
      · exact absurd hread (by simp only [reduceCtorEq, not_false_eq_true])
      next hvalue =>
      rw [h.value hle hvalue]
      simp only
      split at hread
      · exact hread
      · split at hread
        · next hmore =>
            rw [h.fields hle hmore]
            exact hread
        · exact absurd hread (by simp only [reduceCtorEq, not_false_eq_true])
      · exact absurd hread (by simp only [reduceCtorEq, not_false_eq_true])
    · exact absurd hread (by simp only [reduceCtorEq, not_false_eq_true])
  · exact absurd hread (by simp only [reduceCtorEq, not_false_eq_true])

end Deepens

theorem deepens (fuel : Nat) : Deepens fuel := by
  induction fuel with
  | zero =>
      refine ⟨fun _ h => ?_, fun _ h => ?_, fun _ h => ?_⟩
      · exact absurd h (by simp only [readValue, reduceCtorEq, not_false_eq_true])
      · exact absurd h (by simp only [readItems, reduceCtorEq, not_false_eq_true])
      · exact absurd h (by simp only [readFields, reduceCtorEq, not_false_eq_true])
  | succ fuel ih =>
      exact ⟨fun hle => ih.value_succ hle, fun hle => ih.items_succ hle,
        fun hle => ih.fields_succ hle⟩

/-- What is read is also read when the reader may go deeper. -/
theorem readWithin_of_le {room more : Nat} {t : Text} {value : Json} (hle : room ≤ more)
    (h : readWithin room t = .ok value) : readWithin more t = .ok value := by
  unfold readWithin at h ⊢
  split at h
  · exact absurd h (by simp only [reduceCtorEq, not_false_eq_true])
  next hmark =>
  rw [if_neg hmark]
  split at h
  · exact absurd h (by simp only [reduceCtorEq, not_false_eq_true])
  next hread =>
  rw [(deepens _).value hle hread]
  exact h

/-- What is written is read back, with the fields in the order of their keys. -/
theorem readWithin_print {value : Json} (hregular : value.Regular) (hfaithful : value.Faithful)
    {room : Nat} (hdepth : value.depth ≤ room) :
    readWithin room value.print = .ok value.sorted := by
  have hback := back hregular hfaithful
  have hbegins := hback.begins 0
  have hread := hback.read 0 (2 * (printAt 0 value).length + 2) room [] Ends.nil (by omega) hdepth
  rw [List.append_nil] at hread
  rw [print, readWithin, hbegins.skip, hread]
  rcases hbegins with ⟨c, rest, heq, _, _, hmark⟩
  rw [heq, if_neg]
  · rfl
  · rw [List.head?_cons, beq_iff_eq, Option.some.injEq]
    exact hmark

/-- A value that is nested no deeper than is allowed is read back. -/
theorem read_print {value : Json} (hregular : value.Regular) (hfaithful : value.Faithful)
    (hdepth : value.depth ≤ maxNesting) : read value.print = .ok value.sorted :=
  readWithin_print hregular hfaithful hdepth

/-- Nothing else is read from what is written, also when it is too deep to be read. -/
theorem eq_sorted_of_read_print {value other : Json} (hregular : value.Regular)
    (hfaithful : value.Faithful) (h : read value.print = .ok other) : other = value.sorted := by
  have hdeep := readWithin_print hregular hfaithful (Nat.le_max_right maxNesting value.depth)
  have hread := readWithin_of_le (Nat.le_max_left maxNesting value.depth) h
  rw [hdeep] at hread
  exact (Except.ok.inj hread).symm

end Json

end QueryDesk
