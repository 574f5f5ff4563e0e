import QueryDesk.Files.Path
import QueryDesk.Proofs.Text.Split

/-!
# Paths in normal form

An absolute path is in normal form when it is one or two slashes and names that
say something: none is empty, a dot or a pair of dots, and none holds a slash. A
path in normal form is read back as the slashes and names it was written from, so
two of them are the same text only when they have the same names. Normalizing
any absolute path gives one, and leaves one as it is.

## Main definitions

* `Path.Proper`: A name that leads one step further.
* `Path.Normal`: An absolute path of proper names.

## Theorems

* `leadingSlashes_write`, `splitOn_write`: What a written path is read as.
* `parse_write`: A written path has its slashes and names again.
* `write_injective`: Different names are written differently.
* `normalize_normal`: A path in normal form is already normalized.
* `normal_normalize`: An absolute path is normalized to normal form.
-/

namespace QueryDesk

namespace Path

/-- A name that leads one step further along a path. -/
structure Proper (name : Text) : Prop where
  ne_nil : name ≠ []
  ne_here : name ≠ here
  ne_up : name ≠ up
  no_slash : '/' ∉ name

/-- An absolute path of proper names. -/
def Normal (path : Text) : Prop :=
  ∃ slashes names, (slashes = 1 ∨ slashes = 2) ∧ (∀ name ∈ names, Proper name)
    ∧ path = write slashes names

-- What is left when a name neither stays nor goes back.
theorem proper_of_moves (name : Text) (hkept : ¬ (name.isEmpty || name == here) = true)
    (hup : ¬ (name == up) = true) (hslash : '/' ∉ name) : Proper name := by
  rw [Bool.or_eq_true, not_or] at hkept
  exact ⟨fun h => hkept.1 (List.isEmpty_iff.mpr h), fun h => hkept.2 (beq_iff_eq.mpr h),
    fun h => hup (beq_iff_eq.mpr h), hslash⟩

theorem Proper.not_up {name : Text} (h : Proper name) : ¬ (name == up) = true := fun hup =>
  h.ne_up (beq_iff_eq.mp hup)

theorem write_of_pos (slashes : Nat) (names : List Text) (h : 0 < slashes) :
    write slashes names = List.replicate slashes '/' ++ Text.join ['/'] names := by
  have hzero : (decide (slashes = 0) && names.isEmpty) = false := by
    rw [decide_eq_false (Nat.ne_of_gt h), Bool.false_and]
  rw [write, hzero, if_neg Bool.false_ne_true]

theorem isAbsolute_write (slashes : Nat) (names : List Text) (h : 0 < slashes) :
    isAbsolute (write slashes names) = true := by
  rw [write_of_pos slashes names h]
  cases slashes with
  | zero => exact absurd h (Nat.lt_irrefl 0)
  | succ slashes => rfl

theorem exists_cons_of_isAbsolute (path : Text) (h : isAbsolute path = true) :
    ∃ rest, path = '/' :: rest := by
  cases path with
  | nil => exact absurd h (by decide)
  | cons c rest =>
      have hc : some c = some '/' := beq_iff_eq.mp h
      exact ⟨rest, by rw [Option.some.inj hc]⟩

-- Proper names written one after the other do not begin with a slash.
theorem takeWhile_join (names : List Text) (h : ∀ name ∈ names, Proper name) :
    (Text.join ['/'] names).takeWhile (· == '/') = [] := by
  cases names with
  | nil => rfl
  | cons name names =>
      have hproper := h name List.mem_cons_self
      cases hname : name with
      | nil => exact absurd hname hproper.ne_nil
      | cons c more =>
          have hc : ¬ (c == '/') = true := by
            intro hc
            refine hproper.no_slash ?_
            rw [hname, beq_iff_eq.mp hc]
            exact List.mem_cons_self
          rcases Text.join_cons '/' c more names with ⟨tail, htail⟩
          rw [htail]
          exact List.takeWhile_cons_of_neg hc

/-- The leading slashes of a path in normal form are those it was written
    with. -/
theorem leadingSlashes_write (slashes : Nat) (names : List Text) (hs : slashes = 1 ∨ slashes = 2)
    (h : ∀ name ∈ names, Proper name) : leadingSlashes (write slashes names) = slashes := by
  have hrun : ((write slashes names).takeWhile (· == '/')).length = slashes := by
    rw [write_of_pos slashes names (by omega), List.takeWhile_append_of_pos, takeWhile_join names h,
      List.append_nil, List.length_replicate]
    intro c hc
    exact beq_iff_eq.mpr (List.eq_of_mem_replicate hc)
  rw [leadingSlashes, hrun]
  rcases hs with rfl | rfl <;> rfl

-- The parts of a text after some slashes.
theorem splitOn_replicate_append (slashes : Nat) (t : Text) :
    Text.splitOn '/' (List.replicate slashes '/' ++ t)
      = List.replicate slashes [] ++ Text.splitOn '/' t := by
  induction slashes with
  | zero => rfl
  | succ slashes ih =>
      rw [List.replicate_succ, List.replicate_succ, List.cons_append, List.cons_append, ← ih]
      exact Text.splitOn_append '/' [] (List.replicate slashes '/' ++ t)

/-- The parts of a written path: an empty one for each slash, and then the names,
    or one more empty part when there are none. -/
theorem splitOn_write (slashes : Nat) (names : List Text) (hs : 0 < slashes)
    (h : ∀ name ∈ names, '/' ∉ name) :
    Text.splitOn '/' (write slashes names)
      = List.replicate slashes [] ++ if names.isEmpty then [[]] else names := by
  rw [write_of_pos slashes names hs, splitOn_replicate_append]
  cases names with
  | nil => rfl
  | cons name names =>
      rw [Text.splitOn_join '/' (name :: names) (List.cons_ne_nil _ _) h]
      rfl

-- The parts of a path that is written from some names, with or without slashes before them.
theorem splitOn_write_of_ne_nil (slashes : Nat) (names : List Text) (hne : names ≠ [])
    (h : ∀ name ∈ names, '/' ∉ name) :
    Text.splitOn '/' (write slashes names) = List.replicate slashes [] ++ names := by
  have hempty : names.isEmpty = false := List.isEmpty_eq_false_iff.mpr hne
  cases slashes with
  | zero =>
      have hwrite : write 0 names = Text.join ['/'] names := by
        rw [write, hempty, Bool.and_false, if_neg Bool.false_ne_true]
        rfl
      rw [hwrite]
      exact Text.splitOn_join '/' names hne h
  | succ slashes =>
      rw [splitOn_write (slashes + 1) names (Nat.succ_pos slashes) h, hempty,
        if_neg Bool.false_ne_true]

-- A name counts when a path is read.
theorem Proper.kept {name : Text} (h : Proper name) : (name.isEmpty || name == here) = false := by
  have hempty : name.isEmpty = false := by
    cases name with
    | nil => exact absurd rfl h.ne_nil
    | cons c rest => rfl
  rw [hempty, Bool.false_or]
  exact beq_eq_false_iff_ne.mpr h.ne_here

theorem filter_kept (names : List Text) (h : ∀ name ∈ names, Proper name) :
    names.filter (fun name => !(name.isEmpty || name == here)) = names := by
  rw [List.filter_eq_self]
  intro name hname
  rw [(h name hname).kept]
  rfl

/-- A path in normal form has the slashes and names it was written from. -/
theorem parse_write (slashes : Nat) (names : List Text) (hs : slashes = 1 ∨ slashes = 2)
    (h : ∀ name ∈ names, Proper name) :
    FilePath.parse (write slashes names) = ⟨slashes, names⟩ := by
  have hnames : (Text.splitOn '/' (write slashes names)).filter
      (fun name => !(name.isEmpty || name == here)) = names := by
    have hslashes : (List.replicate slashes ([] : Text)).filter
        (fun name => !(name.isEmpty || name == here)) = [] := by
      rcases hs with rfl | rfl <;> rfl
    rw [splitOn_write slashes names (by omega) fun name hname => (h name hname).no_slash,
      List.filter_append, hslashes, List.nil_append]
    cases names with
    | nil => rfl
    | cons name names => exact filter_kept (name :: names) h
  rw [FilePath.parse, leadingSlashes_write slashes names hs h, hnames]

/-- Different slashes or names are written differently. -/
theorem write_injective (slashes slashes' : Nat) (names names' : List Text)
    (hs : slashes = 1 ∨ slashes = 2) (hs' : slashes' = 1 ∨ slashes' = 2)
    (h : ∀ name ∈ names, Proper name) (h' : ∀ name ∈ names', Proper name)
    (heq : write slashes names = write slashes' names') : slashes = slashes' ∧ names = names' := by
  have hparse := congrArg FilePath.parse heq
  rw [parse_write slashes names hs h, parse_write slashes' names' hs' h'] at hparse
  exact FilePath.mk.inj hparse

theorem Normal.parse_text {path : Text} (h : Normal path) : (FilePath.parse path).text = path := by
  rcases h with ⟨slashes, names, hs, hnames, rfl⟩
  rw [parse_write slashes names hs hnames]
  rfl

/-! ## Normalizing -/

theorem leadingSlashes_of_isAbsolute (path : Text) (h : isAbsolute path = true) :
    leadingSlashes path = 1 ∨ leadingSlashes path = 2 := by
  rcases exists_cons_of_isAbsolute path h with ⟨rest, rfl⟩
  have hrun : (('/' :: rest).takeWhile (· == '/')).length
      = (rest.takeWhile (· == '/')).length + 1 := by
    simp only [List.takeWhile_cons, beq_self_eq_true, if_true, List.length_cons]
  rw [leadingSlashes, hrun]
  split
  · next hzero => exact absurd hzero (Nat.succ_ne_zero _)
  · exact Or.inr rfl
  · exact Or.inl rfl

theorem stepLexical_proper (absolute : Bool) (reached : List Text) (name : Text)
    (h : Proper name) : stepLexical absolute reached name = reached ++ [name] := by
  rw [stepLexical, h.kept, if_neg Bool.false_ne_true, if_neg h.not_up]

-- One name applied to proper names from the root leaves proper names.
theorem proper_stepLexical (reached : List Text) (name : Text)
    (hreached : ∀ n ∈ reached, Proper n) (hslash : '/' ∉ name) :
    ∀ n ∈ stepLexical true reached name, Proper n := by
  by_cases hkept : (name.isEmpty || name == here) = true
  · rw [stepLexical, if_pos hkept]
    exact hreached
  rw [stepLexical, if_neg hkept]
  by_cases hup : (name == up) = true
  · rw [if_pos hup]
    cases hlast : reached.getLast? with
    | none => exact hreached
    | some last =>
        have hproper : Proper last := hreached last (List.mem_of_getLast? hlast)
        simp only [if_neg hproper.not_up]
        exact fun n hn => hreached n (List.dropLast_subset reached hn)
  · rw [if_neg hup]
    have hname := proper_of_moves name hkept hup hslash
    intro n hn
    rcases List.mem_append.mp hn with hn | hn
    · exact hreached n hn
    · rw [List.mem_singleton.mp hn]
      exact hname

theorem proper_foldl_stepLexical (names reached : List Text)
    (hreached : ∀ n ∈ reached, Proper n) (hslash : ∀ name ∈ names, '/' ∉ name) :
    ∀ n ∈ names.foldl (stepLexical true) reached, Proper n := by
  induction names generalizing reached with
  | nil => exact hreached
  | cons name names ih =>
      refine ih (stepLexical true reached name) ?_ fun n hn => hslash n (List.mem_cons_of_mem _ hn)
      exact proper_stepLexical reached name hreached (hslash name List.mem_cons_self)

-- Proper names are put after the names reached so far.
theorem foldl_stepLexical_proper (absolute : Bool) (names reached : List Text)
    (h : ∀ name ∈ names, Proper name) :
    names.foldl (stepLexical absolute) reached = reached ++ names := by
  induction names generalizing reached with
  | nil => exact (List.append_nil reached).symm
  | cons name names ih =>
      rw [List.foldl_cons, stepLexical_proper absolute reached name (h name List.mem_cons_self),
        ih _ fun n hn => h n (List.mem_cons_of_mem _ hn), List.append_assoc]
      rfl

theorem proper_lexicalNames (path : Text) :
    ∀ name ∈ lexicalNames true (Text.splitOn '/' path), Proper name :=
  proper_foldl_stepLexical _ [] (fun _ hn => absurd hn List.not_mem_nil)
    fun name hname => Text.not_mem_of_mem_splitOn '/' path name hname

/-- An absolute path is normalized to normal form. -/
theorem normal_normalize (path : Text) (h : isAbsolute path = true) : Normal (normalize path) :=
  ⟨leadingSlashes path, lexicalNames true (Text.splitOn '/' path),
    leadingSlashes_of_isAbsolute path h, proper_lexicalNames path, by rw [normalize, h]⟩

theorem foldl_stepLexical_replicate (absolute : Bool) (count : Nat) (reached : List Text) :
    (List.replicate count []).foldl (stepLexical absolute) reached = reached := by
  induction count with
  | zero => rfl
  | succ count ih => exact ih

/-- A path in normal form is already normalized. -/
theorem normalize_normal (path : Text) (h : Normal path) : normalize path = path := by
  rcases h with ⟨slashes, names, hs, hnames, rfl⟩
  have hlexical : lexicalNames true (Text.splitOn '/' (write slashes names)) = names := by
    rw [splitOn_write slashes names (by omega) fun name hname => (hnames name hname).no_slash,
      lexicalNames, List.foldl_append, foldl_stepLexical_replicate]
    cases names with
    | nil => rfl
    | cons name names => exact foldl_stepLexical_proper true (name :: names) [] hnames
  rw [normalize, isAbsolute_write slashes names (by omega), hlexical,
    leadingSlashes_write slashes names hs hnames]

theorem Normal.isAbsolute {path : Text} (h : Normal path) : isAbsolute path = true := by
  rcases h with ⟨slashes, names, hs, _, rfl⟩
  exact isAbsolute_write slashes names (by omega)

end Path

end QueryDesk
