import QueryDesk.Proofs.Desk.Target
import QueryDesk.Proofs.Files.Named
import QueryDesk.Proofs.Query.Position

/-!
# Names made out again

The name under which the desk knows a file is made out from the text that a user gave, and
then again from the name itself, when an editor is put under it, when the editor is saved and
when a query is asked in it. Most of what is done to a text finds nothing left to do in the
name: it is absolute, it begins with no home directory, and no empty names or dots are in it.

Two things can still be done. Blanks are dropped before links are followed and not after, so
the name of a file that ends in a blank loses it the next time. And where resolving did not
come to its end, because of a loop of links or a NUL character, pairs of dots took away names
without a look at what these were, and what is left may be a link. Where resolving did come
to its end no link is left, and where there are no pairs of dots the text stays as it is. Then
a name without blanks around it stands for itself.

## Main definitions

* `Host.Untangled`: A path that is resolved to its end.
* `Host.Stuck`: A path without pairs of dots that cannot be resolved.
* `Host.Settled`: A path that leads to itself, or cannot be resolved.
* `Host.Steady`: A name under which all that is done again is done.

## Theorems

* `normalize_parse_sublist`: Writing a path anew only takes characters away.
* `realPath_linkFree`: A path on which no link is, is its own real path.
* `canonicalPath_eq_self_iff`: When a name is its own name.
* `canonicalPath_untangled`: No link is on the name of a path resolved to its end.
* `canonicalPath_again`: What becomes of a name that is made out again.
* `canonicalPath_shifts`: Names that become others.
-/

namespace QueryDesk

namespace Path

theorem foldl_stepLexical_sublist (names reached : List Text) :
    (names.foldl (stepLexical true) reached).Sublist (reached ++ names) := by
  induction names generalizing reached with
  | nil => exact List.sublist_append_left reached []
  | cons name names ih =>
      refine (ih (stepLexical true reached name)).trans ?_
      have hstep : (stepLexical true reached name).Sublist (reached ++ [name]) := by
        have hstays := List.sublist_append_left reached [name]
        unfold stepLexical
        split
        · exact hstays
        split
        · next hup =>
            split
            · exact hstays
            · split
              · rw [beq_iff_eq.mp hup]
              · exact (List.dropLast_sublist reached).trans hstays
        · exact List.Sublist.refl _
      have happend := hstep.append_right names
      rwa [List.append_assoc] at happend

-- An absolute path written from some of its names lacks characters, and has no others.
theorem write_parse_sublist (path : Text) (names : List Text) (h : isAbsolute path = true)
    (hnames : names.Sublist (FilePath.parse path).names) :
    (write (FilePath.parse path).slashes names).Sublist path := by
  have hslashes : 0 < leadingSlashes path := by
    rcases leadingSlashes_of_isAbsolute path h with hone | htwo <;> omega
  rw [write_of_pos (FilePath.parse path).slashes names hslashes]
  exact write_sublist path names hnames

/-- Normalizing a path only takes characters away. -/
theorem normalize_sublist (path : Text) (h : isAbsolute path = true) :
    (normalize path).Sublist path := by
  have hnames :
      (lexicalNames true (Text.splitOn '/' path)).Sublist (FilePath.parse path).names := by
    rw [← filter_kept _ (proper_lexicalNames path)]
    exact (foldl_stepLexical_sublist (Text.splitOn '/' path) []).filter _
  have hwrite := write_parse_sublist path _ h hnames
  rwa [normalize, h]

/-- So does normalizing a path that was written anew. -/
theorem normalize_parse_sublist (path : Text) (h : isAbsolute path = true) :
    (normalize (FilePath.parse path).text).Sublist path :=
  (normalize_sublist _ (Host.isAbsolute_parse_text path h)).trans
    (write_parse_sublist path _ h (List.Sublist.refl _))

-- An absolute path without pairs of dots is written anew in normal form.
theorem normal_parse (path : Text) (h : isAbsolute path = true) (hdescending : Descending path) :
    Normal (FilePath.parse path).text := by
  refine ⟨leadingSlashes path, (FilePath.parse path).names, leadingSlashes_of_isAbsolute path h,
    fun name hname => ?_, rfl⟩
  rcases List.mem_filter.mp hname with ⟨hmem, hmoves⟩
  refine proper_of_moves name (fun hkept => ?_)
    (fun hup => hdescending name hmem (beq_iff_eq.mp hup))
    (Text.not_mem_of_mem_splitOn '/' path name hmem)
  rw [hkept] at hmoves
  exact Bool.false_ne_true hmoves

end Path

namespace Host

variable {host : Host}

/-- Resolving the path that a text writes comes to its end: it meets no loop of links and no
    NUL character, and not too many links that lead one to the other. -/
def Untangled (host : Host) (path : Text) : Prop :=
  ∃ expanded trail seen, host.expandHome (FilePath.parse (Text.trim path)) = .ok expanded
    ∧ host.resolveLinks maxLinkDepth Trail.start expanded.text [] = .done trail seen

/-- The text writes an absolute path without pairs of dots, and it cannot be resolved: it leads
    into a loop of links or through too many of them, or holds a NUL character. -/
structure Stuck (host : Host) (path : Text) : Prop where
  absolute : Path.isAbsolute (Text.trim path) = true
  descending : Path.Descending (Text.trim path)
  failed : ∃ failure, host.resolve (FilePath.parse (Text.trim path)) = .error failure

/-- Without the blanks around it, the path is resolved to itself. If it cannot be resolved, there
    are no blanks around it. -/
def Settled (host : Host) (path : Text) : Prop :=
  match host.resolve (FilePath.parse (Text.trim path)) with
  | .ok real => real = path
  | .error _ => Text.trim path = path

/-! ## Paths on which no link is -/

theorem resolveNames_linkFree (descend : Trail → Text → SeenLinks → Resolution)
    (before : Place) (names : List Text) (seen : SeenLinks)
    (h : host.LinkFree ⟨none, before ++ names⟩) :
    host.resolveNames descend ⟨none, before⟩ names seen = .done ⟨none, before ++ names⟩ seen := by
  induction names generalizing before with
  | nil => rw [resolveNames, List.append_nil]
  | cons name rest ih =>
      have hahead : before ++ name :: rest = (before ++ [name]) ++ rest :=
        List.append_cons before name rest
      rcases h.proper name (List.mem_append_right before List.mem_cons_self) with ⟨hname, hnul⟩
      have hlink : host.files.linkAt? (before ++ [name]) = none :=
        h.noLink _ ⟨rest, hahead.symm⟩
      have hplace : (Trail.push ⟨none, before⟩ name).place host.workDir = before ++ [name] := rfl
      rw [resolveNames, hname.kept, if_neg Bool.false_ne_true, if_neg hname.not_up,
        if_neg fun hmem => hnul (List.elem_iff.mp hmem)]
      simp only [hplace, hlink]
      rw [hahead] at h ⊢
      exact ih (before ++ [name]) h

/-- A path on which no link is, is its own real path, whether or not there is anything at it. -/
theorem realPath_linkFree (place : Place) (h : host.LinkFree ⟨none, place⟩) :
    host.realPath (Path.ofPlace place) = .ok (Path.ofPlace place) := by
  have hsplit : Text.splitOn '/' (Path.ofPlace place)
      = [] :: if place.isEmpty then [[]] else place :=
    Path.splitOn_write 1 place Nat.one_pos fun name hname => (h.proper name hname).1.no_slash
  have hresolved : host.resolveLinks maxLinkDepth Trail.start (Path.ofPlace place) []
      = .done ⟨none, place⟩ [] := by
    rw [show maxLinkDepth = 959 + 1 from rfl, resolveLinks, if_pos (Path.isAbsolute_ofPlace place),
      hsplit]
    cases place with
    | nil => rfl
    | cons name rest => exact resolveNames_linkFree _ [] (name :: rest) [] h
  rw [realPath, hresolved]
  rfl

-- Wherever resolving has come, no link is on the way there from the root.
theorem keeps_linkFree_place (host : Host) :
    host.Keeps (fun trail => host.LinkFree ⟨none, trail.place host.workDir⟩) fun _ => True where
  root := linkFree_root host
  pop trail htrail := by
    have hpop := htrail.pop
    rw [Trail.place_pop]
    unfold Trail.pop at hpop
    by_cases hempty : (trail.place host.workDir).isEmpty = true
    · rw [List.isEmpty_iff.mp hempty]
      exact linkFree_root host
    · rwa [if_neg hempty] at hpop
  push trail name htrail hname hnul hlink := by
    rw [Trail.place_push] at hlink ⊢
    exact htrail.push name hname hnul hlink
  loop _ _ _ := trivial
  join _ _ _ := trivial

/-! ## Names that stand for themselves -/

-- What is left to do to a path in normal form.
theorem canonicalPath_of_normal (path : Text) (h : Path.Normal path) :
    host.canonicalPath path = .ok (match host.resolve (FilePath.parse (Text.trim path)) with
      | .ok real => real
      | .error _ => Path.normalize (FilePath.parse (Text.trim path)).text) := by
  have htrim := isAbsolute_trim path h.isAbsolute
  have hempty : (Text.trim path).isEmpty = false := by
    rcases Path.exists_cons_of_isAbsolute _ htrim with ⟨rest, hrest⟩
    rw [hrest]
    rfl
  unfold canonicalPath
  simp only [hempty, Bool.false_eq_true, if_false, expandHome_of_isAbsolute host _ htrim]
  cases host.resolve (FilePath.parse (Text.trim path)) with
  | ok real => rfl
  | error failure =>
      simp only [absolute_of_isAbsolute host.workDir _ (isAbsolute_parse_text _ htrim)]

/-- A path in normal form is its own name just when it leads to itself, or cannot be resolved
    and has no blanks around it. -/
theorem canonicalPath_eq_self_iff (path : Text) (h : Path.Normal path) :
    host.canonicalPath path = .ok path ↔ host.Settled path := by
  rw [canonicalPath_of_normal path h, Settled]
  cases host.resolve (FilePath.parse (Text.trim path)) with
  | ok real => simp only [Except.ok.injEq]
  | error failure =>
      simp only [Except.ok.injEq]
      refine ⟨fun hself => ?_, fun htrim => ?_⟩
      · -- Blanks that were dropped do not come back, because nothing else adds a character.
        have hkept := Path.normalize_parse_sublist _ (isAbsolute_trim path h.isAbsolute)
        rw [hself] at hkept
        exact (Text.trim_sublist path).antisymm hkept
      · rw [htrim, h.parse_text, Path.normalize_normal path h]

/-- No link is on the name of a path that is resolved to its end, nor at it. -/
theorem canonicalPath_untangled (hsound : host.Sound) (path found : Text)
    (huntangled : host.Untangled path) (h : host.canonicalPath path = .ok found)
    (hne : found ≠ []) :
    ∃ place, found = Path.ofPlace place ∧ host.LinkFree ⟨none, place⟩ := by
  rcases huntangled with ⟨expanded, trail, seen, hexpanded, hdone⟩
  have hstart : host.LinkFree ⟨none, Trail.start.place host.workDir⟩ := by
    rw [Trail.place_start]
    exact linkFree_direct hsound.workDir
  have hholds := resolveLinks_holds host (keeps_linkFree_place host) maxLinkDepth Trail.start
    expanded.text [] hstart fun _ _ hmem => absurd hmem List.not_mem_nil
  rw [hdone] at hholds
  have hreal : host.realPath expanded.text = .ok (Path.ofPlace (trail.place host.workDir)) := by
    rw [realPath, hdone]
  have hresolved := resolve_of_realPath expanded _ hholds.1 hreal
  refine ⟨trail.place host.workDir, ?_, hholds.1⟩
  rcases canonicalPath_cases host path found h with
    ⟨-, hempty⟩ | ⟨other, hother, hfound | ⟨⟨failure, hfailed⟩, -⟩⟩
  · exact absurd hempty hne
  · rw [hexpanded, Except.ok.injEq] at hother
    rw [← hother, hresolved, Except.ok.injEq] at hfound
    exact hfound.symm
  · rw [hexpanded, Except.ok.injEq] at hother
    rw [← hother, hresolved] at hfailed
    exact absurd hfailed (by simp only [reduceCtorEq, not_false_eq_true])

-- A path on which no link is leads to itself.
theorem settled_linkFree (place : Place) (h : host.LinkFree ⟨none, place⟩)
    (htrim : Text.trim (Path.ofPlace place) = Path.ofPlace place) :
    host.Settled (Path.ofPlace place) := by
  have hnormal : Path.Normal (Path.ofPlace place) := h.normal
  have hresolved := resolve_of_realPath (FilePath.parse (Path.ofPlace place)) place h
    (by rw [hnormal.parse_text]; exact realPath_linkFree place h)
  rw [Settled, htrim, hresolved]

-- Where resolving fails it is the text that counts, and the text was written anew already.
theorem settled_stuck (path found : Text) (hstuck : host.Stuck path)
    (h : host.canonicalPath path = .ok found) (htrim : Text.trim found = found) :
    host.Settled found := by
  rcases hstuck.failed with ⟨failure, hfailed⟩
  have hnormal := Path.normal_parse _ hstuck.absolute hstuck.descending
  have hfound : found = (FilePath.parse (Text.trim path)).text := by
    rcases canonicalPath_cases host path found h with
      ⟨hempty, -⟩ | ⟨expanded, hexpanded, hreal | ⟨-, hfound⟩⟩
    · have habsolute := hstuck.absolute
      rw [hempty] at habsolute
      exact absurd habsolute (by decide)
    · rw [expandHome_of_isAbsolute host _ hstuck.absolute, Except.ok.injEq] at hexpanded
      rw [← hexpanded, hfailed] at hreal
      exact absurd hreal (by simp only [reduceCtorEq, not_false_eq_true])
    · rw [expandHome_of_isAbsolute host _ hstuck.absolute, Except.ok.injEq] at hexpanded
      rw [hfound, ← hexpanded, absolute_of_isAbsolute host.workDir _ hnormal.isAbsolute,
        Path.normalize_normal _ hnormal]
  have hparse : (FilePath.parse found).text = (FilePath.parse (Text.trim path)).text := by
    rw [hfound]
    exact hnormal.parse_text
  have hagain : host.resolve (FilePath.parse found) = .error failure := by
    rw [← hfailed]
    unfold resolve
    rw [hparse]
  rw [Settled, htrim, hagain]

/-- All that is done again under the name is done under this name: an editor that is put under
    it has it, an editor that has it writes to it and keeps it, and what a query says about the
    place of a selection has it. -/
structure Steady (host : Host) (name : Text) : Prop where
  rename : ∀ editor : Editor, name ≠ [] →
    editor.rename host name = ({ editor with path := some name }, .ok name)
  save : ∀ editor : Editor, name ≠ [] → editor.path = some name →
    editor.save host []
      = match host.writeSource name editor.sourceText editor.ending.text .utf8 with
        | (after, .error failure) => (after, editor, .error failure)
        | (after, .ok ()) => (after, editor.settle, .ok ⟨name, none⟩)
  describe : ∀ selection text position,
    host.describe name selection text = .ok position → position.path = name

theorem steady_of_canonicalPath (name : Text) (h : host.canonicalPath name = .ok name) :
    host.Steady name where
  rename editor hne := by
    rw [Editor.rename, if_neg fun hempty => hne (List.isEmpty_iff.mp hempty)]
    simp only [h]
  save editor hne hpath := by
    have hknown : Text.orElse [] editor.pathText = name := by
      change editor.path.getD [] = name
      rw [hpath, Option.getD_some]
    have hfilled : ¬ name.isEmpty = true := fun hempty => hne (List.isEmpty_iff.mp hempty)
    rw [Editor.save, hknown]
    rcases hwrite : host.writeSource name editor.sourceText editor.ending.text .utf8 with
      ⟨after, failure | done⟩
    · simp only [h, if_neg hfilled, hwrite]
    · simp only [h, if_neg hfilled, hwrite, hpath, if_true]
  describe selection text position hposition := by
    have hname := describe_path host name selection text position hposition
    rw [h, Except.ok.injEq] at hname
    exact hname.symm

/-- The name of a file is empty or absolute. It is its own name just when it leads to itself, or
    cannot be resolved and has no blanks around it. Where the path was resolved to its end no link
    is left on the name. So the name is its own one if there are no blanks around it, and so it is
    where an absolute path without pairs of dots could not be resolved. Then all that is done
    again under the name is done under this name. -/
theorem canonicalPath_again (host : Host) (path found : Text) (hsound : host.Sound)
    (h : host.canonicalPath path = .ok found) :
    (found = [] ∨ Path.isAbsolute found = true)
      ∧ (host.canonicalPath found = .ok found ↔ found = [] ∨ host.Settled found)
      ∧ (host.Untangled path → found ≠ [] →
        ∃ place, found = Path.ofPlace place ∧ host.LinkFree ⟨none, place⟩)
      ∧ (host.Untangled path ∨ host.Stuck path → Text.trim found = found →
        host.canonicalPath found = .ok found)
      ∧ (host.canonicalPath found = .ok found → host.Steady found) := by
  by_cases hne : found = []
  · -- Only a blank text has the empty name, and the empty text is one.
    subst hne
    have hself : host.canonicalPath [] = .ok [] := rfl
    exact ⟨Or.inl rfl, iff_of_true hself (Or.inl rfl), fun _ hne => absurd rfl hne,
      fun _ _ => hself, steady_of_canonicalPath []⟩
  have hnormal := canonicalPath_normal_of_proper host hsound.workDir.names path found h hne
  have hself : host.canonicalPath found = .ok found ↔ host.Settled found :=
    canonicalPath_eq_self_iff found hnormal
  refine ⟨Or.inr hnormal.isAbsolute, by rw [hself, or_iff_right hne], fun huntangled _ =>
    canonicalPath_untangled hsound path found huntangled h hne, fun hclear htrim => hself.mpr ?_,
    steady_of_canonicalPath found⟩
  rcases hclear with huntangled | hstuck
  · rcases canonicalPath_untangled hsound path found huntangled h hne with ⟨place, rfl, hfree⟩
    exact settled_linkFree place hfree htrim
  · exact settled_stuck path found hstuck h htrim

/-- A path through a pair of dots and a link, to a file that is not there yet. -/
theorem canonicalPath_again_missing :
    let host := Editor.hostWithWork
    host.canonicalPath " ../l/./new.go" = .ok "/work/new.go"
      ∧ host.Untangled " ../l/./new.go"
      ∧ host.canonicalPath "/work/new.go" = .ok "/work/new.go"
      ∧ host.Steady "/work/new.go" := by
  intro host
  have hname : host.canonicalPath " ../l/./new.go" = .ok "/work/new.go" :=
    Editor.eq_ok_of_toOption _ _ (by decide +kernel)
  have huntangled : host.Untangled " ../l/./new.go" := ⟨_, _, _, rfl, rfl⟩
  rcases canonicalPath_again host " ../l/./new.go" "/work/new.go" Editor.hostWithWork_sound hname
    with ⟨-, -, -, hself, hsteady⟩
  have hagain := hself (Or.inl huntangled) (by decide)
  exact ⟨hname, huntangled, hagain, hsteady hagain⟩

/-- Names that become others. A link leads to a file whose name ends in a blank, which is dropped
    when the name is made out again, so what was read from this file is saved to another one. A
    path that leads through a loop of links leaves the name of a link, which is then followed. -/
theorem canonicalPath_shifts :
    let host : Host := .ofFiles ⟨[("a ", .file (Utf8.encode "mine\n") false), ("b", .link "c"),
      ("l", .link "a "), ("o", .link "o")]⟩
    host.Sound ∧ host.canonicalPath "/l" = .ok "/a " ∧ host.canonicalPath "/a " = .ok "/a"
      ∧ host.canonicalPath "/o/../b" = .ok "/b" ∧ host.canonicalPath "/b" = .ok "/c"
      ∧ ∃ loaded after saved, Editor.empty.load host "/l" = (loaded, .ok "/a ")
        ∧ loaded.save host [] = (after, saved, .ok ⟨"/a", some "/a"⟩) := by
  intro host
  have htargets : host.files.NoNul := by
    refine Entry.noNul_directory _ fun entry hentry => ?_
    rcases List.mem_cons.mp hentry with rfl | hentry
    · exact Entry.noNul_file _ _
    rcases List.mem_cons.mp hentry with rfl | hentry
    · exact Entry.noNul_link "c" (by decide)
    rcases List.mem_cons.mp hentry with rfl | hentry
    · exact Entry.noNul_link "a " (by decide)
    · rw [List.mem_singleton.mp hentry]
      exact Entry.noNul_link "o" (by decide)
  let first := Editor.empty.load host "/l"
  have hfirst : first.2 = .ok "/a " := Editor.eq_ok_of_toOption _ _ (by decide +kernel)
  let result := first.1.save host []
  have hresult : result.2.2 = .ok ⟨"/a", some "/a"⟩ :=
    Editor.eq_ok_of_toOption _ _ (by decide +kernel)
  exact ⟨⟨FileTree.direct_root _, rfl, htargets⟩,
    Editor.eq_ok_of_toOption _ _ (by decide +kernel),
    Editor.eq_ok_of_toOption _ _ (by decide +kernel),
    Editor.eq_ok_of_toOption _ _ (by decide +kernel),
    Editor.eq_ok_of_toOption _ _ (by decide +kernel),
    first.1, result.1, result.2.1, by rw [← hfirst], by rw [← hresult]⟩

end Host

end QueryDesk
