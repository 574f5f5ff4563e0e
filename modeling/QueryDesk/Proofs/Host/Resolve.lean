import QueryDesk.Host.Resolve
import QueryDesk.Proofs.Files.Path
import QueryDesk.Proofs.Text.Trim

/-!
# What resolving links leaves

A trail that was resolved from the root holds proper names only, and no part of
it is a link: a name is put on a trail when no link is there, and otherwise the
trail of the link's target takes its place, which was resolved before. The links
remembered on the way keep trails of the same kind, which carries the invariant
from one link to the next.

The name under which the desk knows a file is empty or an absolute path. So a
name that stands for itself is resolved from the root and is in normal form.

## Main definitions

* `Host.LinkFree`: A trail from the root on which no link is.
* `SeenLinks.LinkFree`, `Resolution.LinkFree`: All trails kept are such.
* `Host.Keeps`: A property of trails that resolving keeps.

## Theorems

* `LinkFree.push`, `LinkFree.pop`: Steps along names keep a trail free of links.
* `resolveLinks_holds`: Resolving a path keeps a property of trails.
* `resolveLinks_linkFree`: An absolute path is resolved to a trail without links.
* `canonicalPath_isAbsolute`: The canonical path of more than blanks is absolute.
* `canonicalPath_of_isAbsolute`: An absolute path always has a canonical path.
* `canonicalPath_normal`: The canonical path of an absolute path is in normal form.
* `canonicalPath_normal_of_proper`: So is every one, seen from a proper directory.
* `normal_of_canonicalPath`: A path that is canonical is in normal form.
-/

namespace QueryDesk

namespace Host

/-- A trail from the root with proper names, on which no link is. -/
structure LinkFree (host : Host) (trail : Trail) : Prop where
  rooted : trail.above = none
  proper : ∀ name ∈ trail.names, Path.Proper name ∧ Char.ofNat 0 ∉ name
  noLink : ∀ place, place <+: trail.names → host.files.linkAt? place = none

theorem linkAt?_root (tree : FileTree) : tree.linkAt? [] = none := rfl

theorem linkFree_root (host : Host) : host.LinkFree Trail.root where
  rooted := rfl
  proper := fun _ h => absurd h List.not_mem_nil
  noLink := fun place h => by rw [List.prefix_nil.mp h, linkAt?_root]

theorem LinkFree.pop {host : Host} {trail : Trail} (h : host.LinkFree trail) :
    host.LinkFree trail.pop := by
  unfold Trail.pop
  by_cases hempty : trail.names.isEmpty = true
  · rw [if_pos hempty]
    exact ⟨by rw [h.rooted]; rfl, h.proper, h.noLink⟩
  · rw [if_neg hempty]
    refine ⟨h.rooted, fun name hname => ?_, fun place hplace => ?_⟩
    · exact h.proper name (List.dropLast_subset trail.names hname)
    · exact h.noLink place (hplace.trans (List.dropLast_prefix trail.names))

theorem LinkFree.push {host : Host} {trail : Trail} (h : host.LinkFree trail) (name : Text)
    (hname : Path.Proper name) (hnul : Char.ofNat 0 ∉ name)
    (hlink : host.files.linkAt? (trail.names ++ [name]) = none) :
    host.LinkFree (trail.push name) := by
  refine ⟨h.rooted, fun n hn => ?_, fun place hplace => ?_⟩
  · rcases List.mem_append.mp hn with hn | hn
    · exact h.proper n hn
    · rw [List.mem_singleton.mp hn]
      exact ⟨hname, hnul⟩
  · rcases List.prefix_concat_iff.mp hplace with rfl | hplace
    · exact hlink
    · exact h.noLink place hplace

theorem LinkFree.place {host : Host} {trail : Trail} (h : host.LinkFree trail) :
    trail.place host.workDir = trail.names := by
  unfold Trail.place
  rw [h.rooted]

theorem LinkFree.text {host : Host} {trail : Trail} (h : host.LinkFree trail) :
    trail.text = Path.ofPlace trail.names := by
  unfold Trail.text
  rw [h.rooted]
  rfl

end Host

/-- The targets of the links seen were resolved to trails without links. -/
def SeenLinks.LinkFree (host : Host) (seen : SeenLinks) : Prop :=
  ∀ link reached, (link, some reached) ∈ seen → host.LinkFree reached

/-- What resolving gives keeps only trails without links. A loop is told as an
    absolute path. -/
def Resolution.LinkFree (host : Host) : Resolution → Prop
  | .done trail seen => host.LinkFree trail ∧ SeenLinks.LinkFree host seen
  | .looped path => Path.isAbsolute path = true
  | .notPath => True
  | .tooDeep => True

/-- The targets of the links seen were resolved to trails with a property. -/
def SeenLinks.Holds (P : Trail → Prop) (seen : SeenLinks) : Prop :=
  ∀ link reached, (link, some reached) ∈ seen → P reached

/-- What resolving gives keeps only trails with one property, and a loop is told as
    a path with another. -/
def Resolution.Holds (P : Trail → Prop) (Q : Text → Prop) : Resolution → Prop
  | .done trail seen => P trail ∧ seen.Holds P
  | .looped path => Q path
  | .notPath => True
  | .tooDeep => True

/-- The properties are kept by what resolving does with trails, and with the path
    of a loop. -/
structure Host.Keeps (host : Host) (P : Trail → Prop) (Q : Text → Prop) : Prop where
  root : P Trail.root
  pop : ∀ trail, P trail → P trail.pop
  push : ∀ trail name, P trail → Path.Proper name → Char.ofNat 0 ∉ name →
    host.files.linkAt? ((trail.push name).place host.workDir) = none → P (trail.push name)
  loop : ∀ trail name, P trail → Q (trail.push name).text
  join : ∀ path rest, Q path → Q (Path.join path rest)

namespace SeenLinks

variable {P : Trail → Prop} {seen : SeenLinks}

theorem Holds.cons_none (h : seen.Holds P) (link : Trail) :
    Holds P ((link, none) :: seen) := by
  intro l reached hmem
  rcases List.mem_cons.mp hmem with heq | hmem
  · exact absurd (Prod.mk.inj heq).2 (Option.some_ne_none reached)
  · exact h l reached hmem

theorem Holds.cons_some (h : seen.Holds P) (link reached : Trail) (hreached : P reached) :
    Holds P ((link, some reached) :: seen) := by
  intro l r hmem
  rcases List.mem_cons.mp hmem with heq | hmem
  · rw [Option.some.inj (Prod.mk.inj heq).2]
    exact hreached
  · exact h l r hmem

theorem Holds.lookup (h : seen.Holds P) (link known : Trail)
    (hlookup : seen.lookup link = some (some known)) : P known := by
  rcases List.lookup_eq_some_iff.mp hlookup with ⟨before, after, hseen, _⟩
  refine h link known ?_
  rw [hseen]
  exact List.mem_append_right before List.mem_cons_self

end SeenLinks

namespace Path

-- A path seen from an absolute one is absolute.
theorem isAbsolute_join (base path : Text) (h : isAbsolute base = true) :
    isAbsolute (join base path) = true := by
  unfold join
  rcases exists_cons_of_isAbsolute base h with ⟨rest, rfl⟩
  by_cases hpath : isAbsolute path = true
  · rw [if_pos hpath]
    exact hpath
  · rw [if_neg hpath]
    split <;> rfl

theorem isAbsolute_ofPlace (place : Place) : isAbsolute (ofPlace place) = true :=
  isAbsolute_write 1 place Nat.one_pos

theorem ofPlace_ne_nil (place : Place) : ofPlace place ≠ [] := by
  intro hnil
  have habsolute := isAbsolute_ofPlace place
  rw [hnil] at habsolute
  exact absurd habsolute (by decide)

end Path

namespace Host

/-- Resolving names keeps a property of trails, if the targets of links are resolved
    so. -/
theorem resolveNames_holds {P : Trail → Prop} {Q : Text → Prop} (host : Host)
    (descend : Trail → Text → SeenLinks → Resolution) (hkeeps : host.Keeps P Q)
    (hdescend : ∀ trail target seen, P trail → seen.Holds P → (descend trail target seen).Holds P Q)
    (trail : Trail) (names : List Text) (seen : SeenLinks) (htrail : P trail)
    (hnames : ∀ name ∈ names, '/' ∉ name) (hseen : seen.Holds P) :
    (host.resolveNames descend trail names seen).Holds P Q := by
  induction names generalizing trail seen with
  | nil => exact ⟨htrail, hseen⟩
  | cons name rest ih =>
      have hrest : ∀ n ∈ rest, '/' ∉ n := fun n hn => hnames n (List.mem_cons_of_mem name hn)
      unfold resolveNames
      by_cases hkept : (name.isEmpty || name == Path.here) = true
      · rw [if_pos hkept]
        exact ih trail seen htrail hrest hseen
      rw [if_neg hkept]
      by_cases hup : (name == Path.up) = true
      · rw [if_pos hup]
        exact ih trail.pop seen (hkeeps.pop trail htrail) hrest hseen
      rw [if_neg hup]
      by_cases hnul : name.elem (Char.ofNat 0) = true
      · rw [if_pos hnul]
        trivial
      rw [if_neg hnul]
      have hproper := Path.proper_of_moves name hkept hup (hnames name List.mem_cons_self)
      simp only
      cases hlink : host.files.linkAt? ((trail.push name).place host.workDir) with
      | none =>
          refine ih _ seen (hkeeps.push trail name htrail hproper ?_ hlink) hrest hseen
          exact fun hmem => hnul (List.elem_iff.mpr hmem)
      | some target =>
          -- In the place of a link the trail of its target is gone on with, known or found now.
          cases hlookup : seen.lookup (trail.push name) with
          | some reached =>
              cases reached with
              | some known => exact ih known seen (hseen.lookup _ known hlookup) hrest hseen
              | none => exact hkeeps.join _ _ (hkeeps.loop trail name htrail)
          | none =>
              have hbelow := hdescend trail target _ htrail (hseen.cons_none (trail.push name))
              cases hresult : descend trail target ((trail.push name, none) :: seen) with
              | done reached seen =>
                  rw [hresult] at hbelow
                  simp only [hresult]
                  exact ih reached _ hbelow.1 hrest (hbelow.2.cons_some _ reached hbelow.1)
              | looped path =>
                  rw [hresult] at hbelow
                  simp only [hresult]
                  exact hkeeps.join path _ hbelow
              | notPath => simp only [hresult, Resolution.Holds]
              | tooDeep => simp only [hresult, Resolution.Holds]

/-- Resolving a path keeps a property of trails. -/
theorem resolveLinks_holds {P : Trail → Prop} {Q : Text → Prop} (host : Host)
    (hkeeps : host.Keeps P Q) (depth : Nat) (trail : Trail) (path : Text) (seen : SeenLinks)
    (htrail : P trail) (hseen : seen.Holds P) :
    (host.resolveLinks depth trail path seen).Holds P Q := by
  induction depth generalizing trail path seen with
  | zero => trivial
  | succ depth ih =>
      refine resolveNames_holds host _ hkeeps ih _ _ seen ?_ ?_ hseen
      · by_cases habsolute : Path.isAbsolute path = true
        · rw [if_pos habsolute]
          exact hkeeps.root
        · rw [if_neg habsolute]
          exact htrail
      · exact fun name hname => Text.not_mem_of_mem_splitOn '/' path name hname

theorem keeps_linkFree (host : Host) :
    host.Keeps host.LinkFree fun path => Path.isAbsolute path = true where
  root := linkFree_root host
  pop _ h := h.pop
  push trail name h hname hnul hlink := by
    have hplace : (trail.push name).place host.workDir = trail.names ++ [name] := by
      unfold Trail.place
      rw [show (trail.push name).above = none from h.rooted]
      rfl
    rw [hplace] at hlink
    exact h.push name hname hnul hlink
  loop trail name h := by
    unfold Trail.text
    rw [show (trail.push name).above = none from h.rooted]
    exact Path.isAbsolute_ofPlace _
  join path rest h := Path.isAbsolute_join path rest h

-- Names that are resolved are proper, wherever the trail begins.
theorem keeps_proper (host : Host) :
    host.Keeps (fun trail => ∀ name ∈ trail.names, Path.Proper name) fun _ => True where
  root _ h := absurd h List.not_mem_nil
  pop trail h := by
    unfold Trail.pop
    by_cases hempty : trail.names.isEmpty = true
    · rw [if_pos hempty]
      exact h
    · rw [if_neg hempty]
      exact fun name hname => h name (List.dropLast_subset trail.names hname)
  push trail name h hname _ _ := by
    intro n hn
    rcases List.mem_append.mp hn with hn | hn
    · exact h n hn
    · rw [List.mem_singleton.mp hn]
      exact hname
  loop _ _ _ := trivial
  join _ _ _ := trivial

theorem resolveLinks_linkFree_of_trail (host : Host) (depth : Nat) (trail : Trail) (path : Text)
    (seen : SeenLinks) (htrail : host.LinkFree trail) (hseen : SeenLinks.LinkFree host seen) :
    (host.resolveLinks depth trail path seen).LinkFree host := by
  have hholds := resolveLinks_holds host (keeps_linkFree host) depth trail path seen htrail hseen
  cases hresult : host.resolveLinks depth trail path seen with
  | done | looped | notPath | tooDeep =>
      rw [hresult] at hholds
      exact hholds

/-- An absolute path is resolved to a trail without links, wherever it is seen
    from. -/
theorem resolveLinks_linkFree (host : Host) (depth : Nat) (trail : Trail) (path : Text)
    (h : Path.isAbsolute path = true) : (host.resolveLinks depth trail path []).LinkFree host := by
  have hroot : host.resolveLinks depth trail path []
      = host.resolveLinks depth Trail.root path [] := by
    cases depth with
    | zero => rfl
    | succ depth => rw [resolveLinks, resolveLinks, if_pos h, if_pos h]
  rw [hroot]
  exact resolveLinks_linkFree_of_trail host depth Trail.root path [] (linkFree_root host)
    fun _ _ hmem => absurd hmem List.not_mem_nil

theorem LinkFree.normal {host : Host} {trail : Trail} (h : host.LinkFree trail) :
    Path.Normal (Path.ofPlace trail.names) :=
  ⟨1, trail.names, Or.inl rfl, fun name hname => (h.proper name hname).1, rfl⟩

theorem absolute_of_isAbsolute (workDir : Place) (path : Text) (h : Path.isAbsolute path = true) :
    Path.absolute workDir path = Path.normalize path := by
  unfold Path.absolute
  rw [if_pos h]

-- The real path of an absolute path is in normal form.
theorem realPath_normal (host : Host) (path real : Text) (habsolute : Path.isAbsolute path = true)
    (h : host.realPath path = .ok real) : Path.Normal real := by
  have hfree := resolveLinks_linkFree host maxLinkDepth Trail.start path habsolute
  unfold realPath at h
  cases hresult : host.resolveLinks maxLinkDepth Trail.start path [] with
  | done trail seen =>
      rw [hresult] at h hfree
      rw [← Except.ok.inj h, hfree.1.place]
      exact hfree.1.normal
  | looped stuck =>
      rw [hresult] at h hfree
      rw [← Except.ok.inj h, absolute_of_isAbsolute host.workDir stuck hfree]
      exact Path.normal_normalize stuck hfree
  | notPath =>
      rw [hresult] at h
      exact absurd h (by simp only [reduceCtorEq, not_false_eq_true])
  | tooDeep =>
      rw [hresult] at h
      exact absurd h (by simp only [reduceCtorEq, not_false_eq_true])

theorem normal_absolute (workDir : Place) (path : Text) :
    Path.Normal (Path.absolute workDir path) := by
  have hbase : Path.isAbsolute (if Path.isAbsolute path then path
      else Path.join (Path.ofPlace workDir) path) = true := by
    by_cases h : Path.isAbsolute path = true
    · rw [if_pos h]
      exact h
    · rw [if_neg h]
      exact Path.isAbsolute_join _ path (Path.isAbsolute_ofPlace workDir)
  exact Path.normal_normalize _ hbase

theorem isAbsolute_absolute (workDir : Place) (path : Text) :
    Path.isAbsolute (Path.absolute workDir path) = true :=
  (normal_absolute workDir path).isAbsolute

theorem resolve_eq_realPath (host : Host) (path : FilePath) (real : Text)
    (h : host.resolve path = .ok real) : host.realPath path.text = .ok real := by
  unfold resolve at h
  cases hreal : host.realPath path.text with
  | error failure =>
      rw [hreal] at h
      exact absurd h (by simp only [reduceCtorEq, not_false_eq_true])
  | ok found =>
      rw [hreal] at h
      simp only at h
      split at h
      · exact absurd h (by simp only [reduceCtorEq, not_false_eq_true])
      · exact absurd h (by simp only [reduceCtorEq, not_false_eq_true])
      · exact h

theorem realPath_isAbsolute (host : Host) (path real : Text) (h : host.realPath path = .ok real) :
    Path.isAbsolute real = true := by
  unfold realPath at h
  cases hresult : host.resolveLinks maxLinkDepth Trail.start path [] with
  | done trail seen =>
      rw [hresult] at h
      rw [← Except.ok.inj h]
      exact Path.isAbsolute_ofPlace _
  | looped stuck =>
      rw [hresult] at h
      rw [← Except.ok.inj h]
      exact isAbsolute_absolute host.workDir stuck
  | notPath =>
      rw [hresult] at h
      exact absurd h (by simp only [reduceCtorEq, not_false_eq_true])
  | tooDeep =>
      rw [hresult] at h
      exact absurd h (by simp only [reduceCtorEq, not_false_eq_true])

-- What a canonical path is: nothing for a blank text, or the real path, or the path made
-- absolute.
theorem canonicalPath_cases (host : Host) (path found : Text)
    (h : host.canonicalPath path = .ok found) :
    Text.trim path = [] ∧ found = []
      ∨ ∃ expanded, host.expandHome (FilePath.parse (Text.trim path)) = .ok expanded
      ∧ (host.resolve expanded = .ok found
        ∨ (∃ failure, host.resolve expanded = .error failure)
          ∧ found = Path.absolute host.workDir expanded.text) := by
  unfold canonicalPath at h
  by_cases hempty : (Text.trim path).isEmpty = true
  · simp only [hempty, if_true] at h
    exact Or.inl ⟨List.isEmpty_iff.mp hempty, (Except.ok.inj h).symm⟩
  · simp only [hempty, Bool.false_eq_true, if_false] at h
    cases hexpand : host.expandHome (FilePath.parse (Text.trim path)) with
    | error failure =>
        rw [hexpand] at h
        exact absurd h (by simp only [reduceCtorEq, not_false_eq_true])
    | ok expanded =>
        rw [hexpand] at h
        refine Or.inr ⟨expanded, rfl, ?_⟩
        cases hresolve : host.resolve expanded with
        | ok real =>
            simp only [hresolve] at h
            exact Or.inl h
        | error failure =>
            simp only [hresolve] at h
            exact Or.inr ⟨⟨failure, rfl⟩, (Except.ok.inj h).symm⟩

/-- The canonical path of a text that is not blank is absolute. -/
theorem canonicalPath_isAbsolute (host : Host) (path found : Text)
    (h : host.canonicalPath path = .ok found) (hblank : Text.trim path ≠ []) :
    Path.isAbsolute found = true := by
  rcases canonicalPath_cases host path found h with ⟨hempty, _⟩ | ⟨expanded, _, hreal | ⟨_, rfl⟩⟩
  · exact absurd hempty hblank
  · exact realPath_isAbsolute host _ found (resolve_eq_realPath host expanded found hreal)
  · exact isAbsolute_absolute host.workDir expanded.text

-- Only a blank text has the empty name.
theorem canonicalPath_isAbsolute_of_ne_nil (host : Host) (path found : Text)
    (h : host.canonicalPath path = .ok found) (hne : found ≠ []) :
    Path.isAbsolute found = true := by
  refine canonicalPath_isAbsolute host path found h fun hblank => hne ?_
  unfold canonicalPath at h
  simp only [hblank, List.isEmpty_nil, if_true, Except.ok.injEq] at h
  exact h.symm

theorem isAbsolute_trim (path : Text) (h : Path.isAbsolute path = true) :
    Path.isAbsolute (Text.trim path) = true := by
  rcases Path.exists_cons_of_isAbsolute path h with ⟨rest, rfl⟩
  rcases Text.trim_cons '/' rest (by decide) with ⟨more, hmore⟩
  rw [hmore]
  rfl

-- A home directory is filled in only where the path does not begin at the root.
theorem expandHome_of_isAbsolute (host : Host) (path : Text) (h : Path.isAbsolute path = true) :
    host.expandHome (FilePath.parse path) = .ok (FilePath.parse path) := by
  have hslashes := Path.leadingSlashes_of_isAbsolute path h
  unfold expandHome
  split
  · next name rest hzero _ =>
      have hparse : (FilePath.parse path).slashes = Path.leadingSlashes path := rfl
      omega
  · rfl

/-- An absolute path always has a canonical path. -/
theorem canonicalPath_of_isAbsolute (host : Host) (path : Text)
    (h : Path.isAbsolute path = true) : ∃ found, host.canonicalPath path = .ok found := by
  have hexpand := expandHome_of_isAbsolute host _ (isAbsolute_trim path h)
  unfold canonicalPath
  by_cases hempty : (Text.trim path).isEmpty = true
  · simp only [hempty, if_true]
    exact ⟨[], rfl⟩
  · simp only [hempty, Bool.false_eq_true, if_false, hexpand]
    cases host.resolve (FilePath.parse (Text.trim path)) with
    | ok real => exact ⟨real, rfl⟩
    | error failure => exact ⟨_, rfl⟩

theorem isAbsolute_parse_text (path : Text) (h : Path.isAbsolute path = true) :
    Path.isAbsolute (FilePath.parse path).text = true := by
  have hslashes := Path.leadingSlashes_of_isAbsolute path h
  exact Path.isAbsolute_write (FilePath.parse path).slashes _ (by
    have hparse : (FilePath.parse path).slashes = Path.leadingSlashes path := rfl
    omega)

/-- The canonical path of an absolute path is in normal form. -/
theorem canonicalPath_normal (host : Host) (path found : Text)
    (habsolute : Path.isAbsolute path = true) (h : host.canonicalPath path = .ok found)
    (hne : found ≠ []) : Path.Normal found := by
  have htrim := isAbsolute_trim path habsolute
  have htext := isAbsolute_parse_text (Text.trim path) htrim
  rcases canonicalPath_cases host path found h with ⟨_, hempty⟩ | ⟨expanded, hexpand, hfound⟩
  · exact absurd hempty hne
  rw [expandHome_of_isAbsolute host _ htrim] at hexpand
  rw [← Except.ok.inj hexpand] at hfound
  rcases hfound with hreal | ⟨_, rfl⟩
  · exact realPath_normal host _ found htext (resolve_eq_realPath host _ found hreal)
  · rw [absolute_of_isAbsolute host.workDir _ htext]
    exact Path.normal_normalize _ htext

-- Seen from a working directory with proper names, every real path is in normal form.
theorem realPath_normal_of_proper (host : Host) (hworkDir : ∀ name ∈ host.workDir, Path.Proper name)
    (path real : Text) (h : host.realPath path = .ok real) : Path.Normal real := by
  have hholds := resolveLinks_holds host (keeps_proper host) maxLinkDepth Trail.start path []
    (fun _ hname => absurd hname List.not_mem_nil) (fun _ _ hmem => absurd hmem List.not_mem_nil)
  unfold realPath at h
  split at h
  · next trail _ hresult =>
      rw [hresult] at hholds
      rw [← Except.ok.inj h]
      refine ⟨1, trail.place host.workDir, Or.inl rfl, fun name hname => ?_, rfl⟩
      unfold Trail.place at hname
      split at hname
      · exact hholds.1 name hname
      · rcases List.mem_append.mp hname with hname | hname
        · exact hworkDir name (List.mem_of_mem_take hname)
        · exact hholds.1 name hname
  · rw [← Except.ok.inj h]
    exact normal_absolute host.workDir _
  · exact absurd h (by simp only [reduceCtorEq, not_false_eq_true])
  · exact absurd h (by simp only [reduceCtorEq, not_false_eq_true])

/-- Seen from a working directory with proper names, every canonical path that is
    not empty is in normal form. -/
theorem canonicalPath_normal_of_proper (host : Host)
    (hworkDir : ∀ name ∈ host.workDir, Path.Proper name) (path found : Text)
    (h : host.canonicalPath path = .ok found) (hne : found ≠ []) : Path.Normal found := by
  rcases canonicalPath_cases host path found h with ⟨_, hempty⟩ | ⟨expanded, _, hreal | ⟨_, rfl⟩⟩
  · exact absurd hempty hne
  · exact realPath_normal_of_proper host hworkDir _ found (resolve_eq_realPath host _ found hreal)
  · exact normal_absolute host.workDir expanded.text

/-- A path that is its own canonical path is in normal form. -/
theorem normal_of_canonicalPath (host : Host) (path : Text)
    (h : host.canonicalPath path = .ok path) (hne : path ≠ []) : Path.Normal path :=
  canonicalPath_normal host path path
    (canonicalPath_isAbsolute_of_ne_nil host path path h hne) h hne

end Host

end QueryDesk
