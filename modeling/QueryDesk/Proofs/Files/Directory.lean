import Mathlib.Data.List.TakeWhile
import QueryDesk.Proofs.Files.Path

/-!
# Paths seen from a directory

A relative path seen from an absolute directory is normalized in two parts: the
names of the directory first, and then the names of the path on top of them. So
the directory counts only as far as it is normalized itself. A path without pairs
of dots takes none of the directory's names away, and then two directories that
differ when normalized give two different paths.

## Main definitions

* `Path.Descending`: A path without pairs of dots.

## Theorems

* `isAbsolute_dirName`: The directory of an absolute path is absolute.
* `normalize_join`: The two parts of a path seen from a directory.
* `normalize_join_eq_of_eq`: A directory counts only as it is normalized.
* `normalize_join_eq_iff`: Without pairs of dots it is all that counts.
-/

namespace QueryDesk

namespace Path

/-- No name of the path is a pair of dots. -/
def Descending (path : Text) : Prop :=
  ∀ name ∈ Text.splitOn '/' path, name ≠ up

/-! ## The directory of a path -/

theorem slash_not_mem_baseName (path : Text) : '/' ∉ baseName path := by
  unfold baseName
  rw [List.mem_reverse]
  intro hmem
  have hne := List.mem_takeWhile_imp hmem
  exact absurd hne (by decide)

theorem baseName_suffix (path : Text) : baseName path <:+ path := by
  unfold baseName
  rw [← List.reverse_prefix, List.reverse_reverse]
  exact List.takeWhile_prefix _

-- What comes before the last name of an absolute path begins at the root.
theorem head_dirName (path : Text) (h : isAbsolute path = true) :
    ∃ rest, path.take (path.length - (baseName path).length) = '/' :: rest := by
  rcases baseName_suffix path with ⟨front, hfront⟩
  have htake : path.take (path.length - (baseName path).length) = front := by
    have hlength : path.length - (baseName path).length = front.length := by
      have := congrArg List.length hfront
      rw [List.length_append] at this
      omega
    rw [hlength]
    exact List.prefix_iff_eq_take.mp ⟨_, hfront⟩ |>.symm
  rw [htake]
  rcases exists_cons_of_isAbsolute path h with ⟨rest, hpath⟩
  cases front with
  | nil =>
      refine absurd ?_ (slash_not_mem_baseName path)
      rw [List.nil_append] at hfront
      rw [hfront, hpath]
      exact List.mem_cons_self
  | cons c front =>
      rw [hpath, List.cons_append] at hfront
      exact ⟨front, by rw [(List.cons.inj hfront).1]⟩

/-- The directory of an absolute path is absolute. -/
theorem isAbsolute_dirName (path : Text) (h : isAbsolute path = true) :
    isAbsolute (dirName path) = true := by
  rcases head_dirName path h with ⟨rest, hhead⟩
  unfold dirName
  rw [hhead]
  by_cases hall : ('/' :: rest).all (· == '/') = true
  · simp only [hall, if_true]
    rfl
  · simp only [hall, Bool.false_eq_true, if_false]
    have hprefix : (('/' :: rest).reverse.dropWhile (· == '/')).reverse <+: '/' :: rest := by
      rw [← List.reverse_suffix, List.reverse_reverse]
      exact List.dropWhile_suffix _
    cases hleft : (('/' :: rest).reverse.dropWhile (· == '/')).reverse with
    | nil =>
        refine absurd ?_ hall
        rw [List.reverse_eq_nil_iff, List.dropWhile_eq_nil_iff] at hleft
        exact List.all_eq_true.mpr fun c hc => hleft c (List.mem_reverse.mpr hc)
    | cons c more =>
        rw [hleft] at hprefix
        rcases hprefix with ⟨tail, htail⟩
        rw [(List.cons.inj htail).1]
        rfl

/-! ## Normalizing a path seen from a directory -/

-- How a relative path is put after an absolute directory: a slash comes between them unless the
-- directory ends in one.
theorem join_cases (base path : Text) (hbase : isAbsolute base = true)
    (hpath : isAbsolute path = false) :
    (∃ front, base = front ++ ['/'] ∧ join base path = base ++ path)
      ∨ base.getLast? ≠ some '/' ∧ join base path = base ++ '/' :: path := by
  rcases exists_cons_of_isAbsolute base hbase with ⟨rest, hrest⟩
  have hempty : base.isEmpty = false := by rw [hrest]; rfl
  unfold join
  rw [hpath, hempty, Bool.false_or, if_neg Bool.false_ne_true]
  by_cases hlast : (base.getLast? == some '/') = true
  · rw [if_pos hlast]
    rcases List.getLast?_eq_some_iff.mp (beq_iff_eq.mp hlast) with ⟨front, hfront⟩
    exact Or.inl ⟨front, hfront, rfl⟩
  · rw [if_neg hlast]
    exact Or.inr ⟨fun h => hlast (beq_iff_eq.mpr h), rfl⟩

theorem takeWhile_of_relative (path : Text) (h : isAbsolute path = false) :
    path.takeWhile (· == '/') = [] := by
  cases path with
  | nil => rfl
  | cons c rest =>
      have hc : ¬ (c == '/') = true := by
        intro hc
        rw [beq_iff_eq.mp hc] at h
        exact Bool.false_ne_true h.symm
      exact List.takeWhile_cons_of_neg hc

-- A path seen from a directory has the directory's leading slashes.
theorem leadingSlashes_join (base path : Text) (hbase : isAbsolute base = true)
    (hpath : isAbsolute path = false) : leadingSlashes (join base path) = leadingSlashes base := by
  have hrun : (join base path).takeWhile (· == '/') = base.takeWhile (· == '/') := by
    by_cases hall : (base.takeWhile (· == '/')).length = base.length
    · -- The directory is nothing but slashes, so it ends in one.
      have hwhole : base.takeWhile (· == '/') = base :=
        (List.takeWhile_prefix (· == '/')).eq_of_length hall
      rcases join_cases base path hbase hpath with ⟨front, hfront, hjoin⟩ | ⟨hlast, _⟩
      · rw [hjoin, List.takeWhile_append, if_pos hall, takeWhile_of_relative path hpath,
          List.append_nil, hwhole]
      · exfalso
        rcases exists_cons_of_isAbsolute base hbase with ⟨rest, hrest⟩
        cases hend : base.getLast? with
        | none =>
            rw [List.getLast?_eq_none_iff.mp hend] at hrest
            exact absurd hrest (List.cons_ne_nil _ _).symm
        | some c =>
            have hmem : c ∈ base.takeWhile (· == '/') := by
              rw [hwhole]
              exact List.mem_of_getLast? hend
            have hslash := List.mem_takeWhile_imp hmem
            rw [hend, beq_iff_eq.mp hslash] at hlast
            exact hlast rfl
    · rcases join_cases base path hbase hpath with ⟨front, hfront, hjoin⟩ | ⟨_, hjoin⟩
      · rw [hjoin, List.takeWhile_append, if_neg hall]
      · rw [hjoin, List.takeWhile_append, if_neg hall]
  unfold leadingSlashes
  rw [hrun]

/-- The names of a path seen from a directory: those of the directory, and those
    of the path on top of them. -/
theorem normalize_join (base path : Text) (hbase : isAbsolute base = true)
    (hpath : isAbsolute path = false) :
    normalize (join base path) = write (leadingSlashes base)
      ((Text.splitOn '/' path).foldl (stepLexical true)
        (lexicalNames true (Text.splitOn '/' base))) := by
  have habsolute : isAbsolute (join base path) = true := by
    rcases exists_cons_of_isAbsolute base hbase with ⟨rest, hrest⟩
    rcases join_cases base path hbase hpath with ⟨_, _, hjoin⟩ | ⟨_, hjoin⟩ <;>
      rw [hjoin, hrest] <;> rfl
  have hnames : lexicalNames true (Text.splitOn '/' (join base path))
      = (Text.splitOn '/' path).foldl (stepLexical true)
        (lexicalNames true (Text.splitOn '/' base)) := by
    unfold lexicalNames
    rcases join_cases base path hbase hpath with ⟨front, hfront, hjoin⟩ | ⟨_, hjoin⟩
    · -- The directory's last part is empty, which does not count.
      have hjoined : base ++ path = front ++ '/' :: path := by
        rw [hfront, List.append_assoc]
        rfl
      rw [hjoin, hjoined, Text.splitOn_append, List.foldl_append, hfront, Text.splitOn_append,
        List.foldl_append]
      rfl
    · rw [hjoin, Text.splitOn_append, List.foldl_append]
  rw [normalize, habsolute, hnames, leadingSlashes_join base path hbase hpath]

/-- A directory counts only as far as it is normalized. -/
theorem normalize_join_eq_of_eq (base other path : Text) (hbase : isAbsolute base = true)
    (hother : isAbsolute other = true) (hpath : isAbsolute path = false)
    (h : normalize base = normalize other) :
    normalize (join base path) = normalize (join other path) := by
  rw [normalize, normalize, hbase, hother] at h
  have hparts := write_injective _ _ _ _ (leadingSlashes_of_isAbsolute base hbase)
    (leadingSlashes_of_isAbsolute other hother) (proper_lexicalNames base)
    (proper_lexicalNames other) h
  rw [normalize_join base path hbase hpath, normalize_join other path hother hpath, hparts.1,
    hparts.2]

-- The names of a path without pairs of dots are put after those of the directory.
theorem foldl_stepLexical_descending (names : List Text) (hup : ∀ name ∈ names, name ≠ up)
    (hslash : ∀ name ∈ names, '/' ∉ name) :
    ∃ kept, (∀ name ∈ kept, Proper name)
      ∧ ∀ reached, names.foldl (stepLexical true) reached = reached ++ kept := by
  induction names with
  | nil => exact ⟨[], fun _ h => absurd h List.not_mem_nil, fun reached => (List.append_nil _).symm⟩
  | cons name names ih =>
      rcases ih (fun n hn => hup n (List.mem_cons_of_mem name hn))
        (fun n hn => hslash n (List.mem_cons_of_mem name hn)) with ⟨kept, hkept, hfold⟩
      by_cases hdrop : (name.isEmpty || name == here) = true
      · refine ⟨kept, hkept, fun reached => ?_⟩
        rw [List.foldl_cons, stepLexical, if_pos hdrop, hfold]
      · have hname := proper_of_moves name hdrop
          (fun heq => hup name List.mem_cons_self (beq_iff_eq.mp heq))
          (hslash name List.mem_cons_self)
        refine ⟨name :: kept, List.forall_mem_cons.mpr ⟨hname, hkept⟩, fun reached => ?_⟩
        rw [List.foldl_cons, stepLexical_proper true reached name hname, hfold, List.append_assoc]
        rfl

/-- For a path without pairs of dots the normalized directory is all that
    counts. -/
theorem normalize_join_eq_iff (base other path : Text) (hbase : isAbsolute base = true)
    (hother : isAbsolute other = true) (hpath : isAbsolute path = false)
    (hdescending : Descending path) :
    normalize (join base path) = normalize (join other path)
      ↔ normalize base = normalize other := by
  constructor
  · intro h
    rcases foldl_stepLexical_descending (Text.splitOn '/' path) hdescending
      (fun name hname => Text.not_mem_of_mem_splitOn '/' path name hname) with
      ⟨kept, hkept, hfold⟩
    have hproper : ∀ directory, ∀ name ∈ lexicalNames true (Text.splitOn '/' directory) ++ kept,
        Proper name := by
      intro directory name hname
      rcases List.mem_append.mp hname with hname | hname
      · exact proper_lexicalNames directory name hname
      · exact hkept name hname
    rw [normalize_join base path hbase hpath, normalize_join other path hother hpath, hfold,
      hfold] at h
    have hparts := write_injective _ _ _ _ (leadingSlashes_of_isAbsolute base hbase)
      (leadingSlashes_of_isAbsolute other hother) (hproper base) (hproper other) h
    rw [normalize, normalize, hbase, hother, hparts.1, List.append_cancel_right hparts.2]
  · exact normalize_join_eq_of_eq base other path hbase hother hpath

end Path

end QueryDesk
