import QueryDesk.Proofs.Files.Direct
import QueryDesk.Proofs.Host.Resolve

/-!
# The real path of a file that can be found

The real path of a path is worked out name by name on the text, with a memory of
the links met, while the file tree walks the same path with a budget of links and
no memory. Wherever the walk arrives, the two agree: the real path is the path of
the place the walk came to.

The links that are still being resolved are what could come between them. One of
these met again is taken for a loop, whether or not it is one. But a route has a
length, and everything a link leads to takes fewer links than the link itself. So
a link whose target is still being resolved has a longer route than all that is
left to do, and it is not met again.

## Main definitions

* `Host.Sound`: A host on which every link and the working directory make sense.
* `SeenLinks.Right`: The links remembered lead where their trails do.
* `SeenLinks.OpenAbove`: The links still being resolved have longer routes.
* `Resolution.LeadsTo`: A resolution that ended at a place.
* `Host.Descends`: The targets of links are resolved along their routes.

## Theorems

* `resolveNames_first`: One name is resolved to where it leads.
* `resolveNames_leadsTo`, `resolveLinks_leadsTo`: Resolving follows routes.
* `realPath_of_walk`: The real path is that of the place a walk came to.
* `canonicalPath_of_walk`: So is the name under which the desk knows the file.
* `canonicalPath_ofPlace`: A real path is its own canonical path.
-/

namespace QueryDesk

/-- A host as there can be one: the working directory is a directory that can be
    named, and no link has a target that is no path. -/
structure Host.Sound (host : Host) : Prop where
  workDir : host.files.Direct host.workDir
  directory : host.files.kind? host.workDir = some .directory
  targets : host.files.NoNul

namespace Trail

theorem place_push (workDir : Place) (trail : Trail) (name : Text) :
    (trail.push name).place workDir = trail.place workDir ++ [name] := by
  unfold place push
  cases trail.above with
  | none => rfl
  | some steps => exact (List.append_assoc _ _ _).symm

theorem place_pop (workDir : Place) (trail : Trail) :
    trail.pop.place workDir = (trail.place workDir).dropLast := by
  rcases trail with ⟨above, names⟩
  rcases List.eq_nil_or_concat names with rfl | ⟨front, name, rfl⟩
  · -- No name is left, so the step goes above the working directory, or nowhere at the root.
    cases above with
    | none => rfl
    | some steps =>
        change workDir.take (workDir.length - (steps + 1)) ++ []
          = (workDir.take (workDir.length - steps) ++ []).dropLast
        rw [List.append_nil, List.append_nil, List.dropLast_eq_take, List.take_take,
          List.length_take]
        congr 1
        omega
  · rw [List.concat_eq_append]
    have hpop : Trail.pop ⟨above, front ++ [name]⟩ = ⟨above, front⟩ := by
      unfold pop
      rw [if_neg (by simp only [List.isEmpty_iff, List.append_eq_nil_iff, List.cons_ne_self,
        and_false, not_false_eq_true])]
      simp only [List.dropLast_concat]
    have hpush : (⟨above, front ++ [name]⟩ : Trail) = Trail.push ⟨above, front⟩ name := rfl
    rw [hpop, hpush, place_push, List.dropLast_concat]

theorem push_injective (trail other : Trail) (name name' : Text)
    (h : trail.push name = other.push name') : trail = other ∧ name = name' := by
  rcases trail with ⟨above, names⟩
  rcases other with ⟨above', names'⟩
  rcases Trail.mk.inj h with ⟨rfl, hnames⟩
  rcases List.append_inj' hnames rfl with ⟨rfl, hname⟩
  exact ⟨rfl, List.singleton_inj.mp hname⟩

theorem place_start (workDir : Place) : start.place workDir = workDir := by
  change workDir.take (workDir.length - 0) ++ [] = workDir
  rw [List.append_nil, Nat.sub_zero, List.take_length]

end Trail

namespace SeenLinks

/-- Every link that is resolved leads to where the trail kept for it does. -/
def Right (host : Host) (seen : SeenLinks) : Prop :=
  ∀ trail name known, seen.lookup (Trail.push trail name) = some (some known) →
    ∃ links, host.files.Route (trail.place host.workDir) [name] links (known.place host.workDir)

/-- Every link still being resolved leads on through more links than the given
    number. -/
def OpenAbove (host : Host) (seen : SeenLinks) (links : Nat) : Prop :=
  ∀ trail name, seen.lookup (Trail.push trail name) = some none →
    ∀ used goal, host.files.Route (trail.place host.workDir) [name] used goal → links < used

variable {host : Host} {seen : SeenLinks}

theorem OpenAbove.mono {links fewer : Nat} (h : OpenAbove host seen links) (hle : fewer ≤ links) :
    OpenAbove host seen fewer := fun trail name hopen used goal hroute =>
  Nat.lt_of_le_of_lt hle (h trail name hopen used goal hroute)

theorem lookup_cons (link other : Trail) (known : Option Trail) :
    List.lookup other ((link, known) :: seen)
      = if other = link then some known else seen.lookup other := by
  rw [List.lookup_cons]
  by_cases h : other = link
  · rw [if_pos h, beq_iff_eq.mpr h]
  · rw [if_neg h, beq_eq_false_iff_ne.mpr h]

theorem Right.cons_none (h : Right host seen) (link : Trail) :
    Right host ((link, none) :: seen) := by
  intro trail name known hlookup
  rw [lookup_cons] at hlookup
  by_cases heq : trail.push name = link
  · rw [if_pos heq] at hlookup
    exact absurd (Option.some.inj hlookup) (Option.some_ne_none known).symm
  · rw [if_neg heq] at hlookup
    exact h trail name known hlookup

-- A link that was resolved is remembered with where it leads.
theorem Right.cons_some (h : Right host seen) (trail reached : Trail) (name : Text) (used : Nat)
    (hroute : host.files.Route (trail.place host.workDir) [name] used
      (reached.place host.workDir)) :
    Right host ((trail.push name, some reached) :: seen) := by
  intro other name' known hlookup
  rw [lookup_cons] at hlookup
  by_cases heq : other.push name' = trail.push name
  · rw [if_pos heq] at hlookup
    rcases Trail.push_injective _ _ _ _ heq with ⟨rfl, rfl⟩
    rw [← Option.some.inj (Option.some.inj hlookup)]
    exact ⟨used, hroute⟩
  · rw [if_neg heq] at hlookup
    exact h other name' known hlookup

-- A link that begins to be resolved has a longer route than its target.
theorem OpenAbove.cons_none {links fewer : Nat} (h : OpenAbove host seen links) (trail : Trail)
    (name : Text) (used : Nat) (goal : Place)
    (hroute : host.files.Route (trail.place host.workDir) [name] used goal)
    (hfewer : fewer < used) (hle : fewer ≤ links) :
    OpenAbove host ((trail.push name, none) :: seen) fewer := by
  intro other name' hopen used' goal' hroute'
  rw [lookup_cons] at hopen
  by_cases heq : other.push name' = trail.push name
  · rcases Trail.push_injective _ _ _ _ heq with ⟨rfl, rfl⟩
    rw [(hroute'.deterministic hroute).1]
    exact hfewer
  · rw [if_neg heq] at hopen
    exact h.mono hle other name' hopen used' goal' hroute'

end SeenLinks

-- A link that was resolved is no longer open, so what is open now was open before it was met.
theorem SeenLinks.open_of_closed {seen memory : SeenLinks} (met reached : Trail)
    (hstill : ∀ link, memory.lookup link = some none →
      List.lookup link ((met, none) :: seen) = some none)
    (link : Trail) (hlink : List.lookup link ((met, some reached) :: memory) = some none) :
    seen.lookup link = some none := by
  rw [lookup_cons] at hlink
  by_cases heq : link = met
  · rw [if_pos heq] at hlink
    exact absurd (Option.some.inj hlink) (Option.some_ne_none reached)
  · rw [if_neg heq] at hlink
    have hopened := hstill link hlink
    rwa [lookup_cons, if_neg heq] at hopened

/-- The resolution ended at a place with no loop met, what it remembers is right,
    and no link is left open that was not so before. -/
def Resolution.LeadsTo (host : Host) (seen : SeenLinks) (goal : Place)
    (resolution : Resolution) : Prop :=
  ∃ trail memory, resolution = .done trail memory ∧ trail.place host.workDir = goal
    ∧ SeenLinks.Right host memory
    ∧ ∀ link, memory.lookup link = some none → seen.lookup link = some none

namespace Host

/-- The targets of links are resolved along their routes, if these take fewer links
    than the given number. -/
def Descends (host : Host) (descend : Trail → Text → SeenLinks → Resolution) (depth : Nat) :
    Prop :=
  ∀ trail target seen links goal, links < depth →
    host.files.Route (if Path.isAbsolute target then [] else trail.place host.workDir)
      (Text.splitOn '/' target) links goal →
    Char.ofNat 0 ∉ target → SeenLinks.Right host seen → SeenLinks.OpenAbove host seen links →
    (descend trail target seen).LeadsTo host seen goal

variable {host : Host}

/-- The first name is resolved to where its route ends, if the targets of links are
    resolved so, and what is remembered then is right. -/
theorem resolveNames_first (descend : Trail → Text → SeenLinks → Resolution) (depth : Nat)
    (htargets : host.files.NoNul) (hdescend : host.Descends descend depth)
    (trail : Trail) (name : Text) (rest : List Text) (seen : SeenLinks) (links : Nat) (goal : Place)
    (hroute : host.files.Route (trail.place host.workDir) [name] links goal)
    (hlinks : links ≤ depth) (hname : Path.Plain name) (hright : SeenLinks.Right host seen)
    (hopen : SeenLinks.OpenAbove host seen links) :
    ∃ reached memory, host.resolveNames descend trail (name :: rest) seen
        = host.resolveNames descend reached rest memory
      ∧ reached.place host.workDir = goal ∧ SeenLinks.Right host memory
      ∧ ∀ link, memory.lookup link = some none → seen.lookup link = some none := by
  have hstep := hroute
  cases hstep with
  | step _ _ _ stride more _ hstride hahead =>
      rw [List.append_nil] at hahead
      rw [resolveNames]
      rcases FileTree.stride?_cases _ name stride hstride with
        ⟨hkept, rfl⟩ | ⟨hkept, hup, rfl⟩ | ⟨hkept, hup, _, hmoves⟩
      · cases hahead
        rw [if_pos hkept]
        exact ⟨trail, seen, rfl, rfl, hright, fun _ h => h⟩
      · cases hahead
        rw [hkept, if_neg Bool.false_ne_true, if_pos hup]
        exact ⟨trail.pop, seen, rfl, Trail.place_pop _ _, hright, fun _ h => h⟩
      have hnul : ¬ name.elem (Char.ofNat 0) = true := fun hmem =>
        hname.no_nul (List.elem_iff.mp hmem)
      rw [hkept, if_neg Bool.false_ne_true, hup, if_neg Bool.false_ne_true, if_neg hnul]
      simp only [Trail.place_push]
      rcases hmoves with ⟨target, hlink, rfl⟩ | ⟨kind, hkind, hnolink, rfl⟩
      · rw [(FileTree.linkAt?_eq_some_iff host.files _ target).mpr hlink]
        simp only
        cases hlookup : seen.lookup (trail.push name) with
        | some state =>
            cases state with
            | some known =>
                rcases hright trail name known hlookup with ⟨used, hknown⟩
                exact ⟨known, seen, rfl, (hknown.deterministic hroute).2, hright, fun _ h => h⟩
            | none =>
                -- A link that is open is longer than all that is left, so it is not met again.
                exact absurd (hopen trail name hlookup _ _ hroute) (Nat.lt_irrefl _)
        | none =>
            have hbelow := hdescend trail target ((trail.push name, none) :: seen) more goal
              (by simp only at hlinks; omega) hahead (htargets _ target hlink)
              (hright.cons_none _)
              (hopen.cons_none trail name _ goal hroute (by simp only; omega)
                (by simp only; omega))
            rcases hbelow with ⟨reached, memory, hresult, hreached, hmemory, hstill⟩
            simp only [hresult]
            rw [← hreached] at hroute
            exact ⟨reached, (trail.push name, some reached) :: memory, rfl, hreached,
              hmemory.cons_some trail reached name _ hroute,
              SeenLinks.open_of_closed (trail.push name) reached hstill⟩
      · cases hahead
        rw [(FileTree.linkAt?_eq_none_iff host.files _).mpr fun target hat =>
          hnolink target (Option.some.inj (hkind.symm.trans hat))]
        exact ⟨trail.push name, seen, rfl, Trail.place_push _ _ _, hright, fun _ h => h⟩

/-- Resolving names follows the route along them, if the targets of links are
    resolved so. -/
theorem resolveNames_leadsTo (descend : Trail → Text → SeenLinks → Resolution) (depth : Nat)
    (htargets : host.files.NoNul) (hdescend : host.Descends descend depth)
    (trail : Trail) (names : List Text) (seen : SeenLinks) (links : Nat) (goal : Place)
    (hroute : host.files.Route (trail.place host.workDir) names links goal)
    (hlinks : links ≤ depth) (hnames : ∀ name ∈ names, Path.Plain name)
    (hright : SeenLinks.Right host seen) (hopen : SeenLinks.OpenAbove host seen links) :
    (host.resolveNames descend trail names seen).LeadsTo host seen goal := by
  induction names generalizing trail seen links with
  | nil =>
      cases hroute
      exact ⟨trail, seen, rfl, rfl, hright, fun _ h => h⟩
  | cons name rest ih =>
      rcases hroute.split [name] rest rfl with ⟨middle, before, after, hfront, hback, rfl⟩
      rcases resolveNames_first descend depth htargets hdescend trail name rest seen before middle
        hfront (Nat.le_trans (Nat.le_add_right before after) hlinks)
        (hnames name List.mem_cons_self) hright (hopen.mono (Nat.le_add_right before after)) with
        ⟨reached, memory, hfirst, hreached, hmemory, hstill⟩
      rw [hfirst]
      rw [← hreached] at hback
      -- What is open now was open before, so it is longer than what is left of the route.
      have hless := hopen.mono (Nat.le_add_left after before)
      rcases ih reached memory after hback (Nat.le_trans (Nat.le_add_left after before) hlinks)
        (fun n hn => hnames n (List.mem_cons_of_mem name hn)) hmemory
        (fun other name' hlookup => hless other name' (hstill _ hlookup)) with
        ⟨final, last, hfinal, hgoal, hlast, hleft⟩
      exact ⟨final, last, hfinal, hgoal, hlast, fun link hlink => hstill link (hleft link hlink)⟩

/-- Resolving a path follows the route along it, as long as this takes fewer links
    than are followed. -/
theorem resolveLinks_leadsTo (depth : Nat) (htargets : host.files.NoNul) :
    host.Descends (host.resolveLinks depth) depth := by
  induction depth with
  | zero => exact fun _ _ _ links _ hlinks => absurd hlinks (Nat.not_lt_zero links)
  | succ depth ih =>
      intro trail path seen links goal hlinks hroute hnul hright hopen
      rw [resolveLinks]
      refine resolveNames_leadsTo _ depth htargets ih _ _ seen links goal ?_
        (Nat.le_of_lt_succ hlinks) (Path.plain_splitOn path hnul) hright hopen
      split
      · next habsolute =>
          rw [if_pos habsolute] at hroute
          exact hroute
      · next habsolute =>
          rw [if_neg habsolute] at hroute
          exact hroute

theorem right_nil (host : Host) : SeenLinks.Right host [] := fun _ _ known h =>
  absurd h (Option.some_ne_none (some known)).symm

theorem openAbove_nil (host : Host) (links : Nat) : SeenLinks.OpenAbove host [] links :=
  fun _ _ h => absurd h (Option.some_ne_none none).symm

/-- The real path of a path is that of the place its route ends at. -/
theorem realPath_of_route (htargets : host.files.NoNul) (path : Text) (links : Nat) (goal : Place)
    (hlinks : links ≤ FileTree.maxLinks) (hnul : Char.ofNat 0 ∉ path)
    (hroute : host.files.Route (FileTree.startOf host.workDir path) (Text.splitOn '/' path) links
      goal) :
    host.realPath path = .ok (Path.ofPlace goal) := by
  have hmost : FileTree.maxLinks < maxLinkDepth := by decide
  rcases resolveLinks_leadsTo maxLinkDepth htargets Trail.start path [] links goal
    (Nat.lt_of_le_of_lt hlinks hmost) (by rw [Trail.place_start]; exact hroute) hnul
    (right_nil host) (openAbove_nil host links) with ⟨trail, memory, hresult, hgoal, _, _⟩
  unfold realPath
  rw [hresult, ← hgoal]

/-- The real path of a path is that of the place a walk came to, which is reached
    by its own names. -/
theorem realPath_of_walk (hsound : host.Sound) (path : Text) (place : Place)
    (h : host.files.walk host.workDir .followed path = .ok (.present place)) :
    host.realPath path = .ok (Path.ofPlace place) ∧ host.files.Direct place := by
  rcases FileTree.route_of_walk host.workDir path place hsound.directory h with
    ⟨_, hnul, links, hlinks, hroute⟩
  refine ⟨realPath_of_route hsound.targets path links place hlinks hnul hroute, ?_⟩
  refine hroute.direct ?_ (Path.plain_splitOn path hnul) hsound.targets
  unfold FileTree.startOf
  split
  · exact FileTree.direct_root host.files
  · exact hsound.workDir

/-! ## Canonical paths -/

end Host

/-- The path is a relative one that begins with the name of a home directory. -/
def FilePath.NamesHome (path : FilePath) : Prop :=
  path.slashes = 0 ∧ ∃ name rest, path.names = name :: rest ∧ name.head? = some '~'

namespace Host

variable {host : Host}

theorem expandHome_eq_self (path : FilePath) (h : ¬ path.NamesHome) :
    host.expandHome path = .ok path := by
  unfold expandHome
  split
  · next name rest hslashes hnames =>
      split
      · next htilde => exact absurd ⟨hslashes, name, rest, hnames, beq_iff_eq.mp htilde⟩ h
      · rfl
  · rfl

-- No link is on the way to a place that its own names lead to.
theorem linkFree_direct {place : Place} (h : host.files.Direct place) :
    host.LinkFree ⟨none, place⟩ :=
  ⟨rfl, h.proper, h.noLink⟩

-- A path without links on it, once found, is taken for what it is.
theorem resolve_of_realPath (path : FilePath) (place : Place) (hfree : host.LinkFree ⟨none, place⟩)
    (h : host.realPath path.text = .ok (Path.ofPlace place)) :
    host.resolve path = .ok (Path.ofPlace place) := by
  rcases FileTree.find_noLink host.workDir place hfree.proper hfree.noLink with ⟨hpath, hloop⟩
  -- With these two faults ruled out only the last case is left.
  unfold resolve
  simp only [h]

-- The path that a text writes is resolved to the place the text leads to.
theorem canonicalPath_of_route (htargets : host.files.NoNul) (path : Text) (links : Nat)
    (place : Place) (hdirect : host.files.Direct place) (hlinks : links ≤ FileTree.maxLinks)
    (hne : path ≠ []) (hnul : Char.ofNat 0 ∉ path)
    (hroute : host.files.Route (FileTree.startOf host.workDir path) (Text.splitOn '/' path) links
      place)
    (htrim : Text.trim path = path) (hhome : ¬ (FilePath.parse path).NamesHome) :
    host.canonicalPath path = .ok (Path.ofPlace place) := by
  have hempty : path.isEmpty = false := by
    cases path with
    | nil => exact absurd rfl hne
    | cons c rest => rfl
  have hreal := realPath_of_route htargets (FilePath.parse path).text links place hlinks
    (Path.no_nul_parse path hnul) (FileTree.route_parse host.workDir path links place hroute)
  have hresolve := resolve_of_realPath (FilePath.parse path) place (linkFree_direct hdirect) hreal
  unfold canonicalPath
  simp only [htrim, hempty, Bool.false_eq_true, if_false, expandHome_eq_self _ hhome, hresolve]

/-- The name under which the desk knows a file that a path leads to is the real
    path of the file, unless the path has blanks around it or begins with the name
    of a home directory. -/
theorem canonicalPath_of_walk (hsound : host.Sound) (path : Text) (place : Place)
    (h : host.files.walk host.workDir .followed path = .ok (.present place))
    (htrim : Text.trim path = path) (hhome : ¬ (FilePath.parse path).NamesHome) :
    host.canonicalPath path = .ok (Path.ofPlace place) := by
  rcases FileTree.route_of_walk host.workDir path place hsound.directory h with
    ⟨hne, hnul, links, hlinks, hroute⟩
  exact canonicalPath_of_route hsound.targets path links place
    (realPath_of_walk hsound path place h).2 hlinks hne hnul hroute htrim hhome

/-- A real path without blanks around it is its own canonical path. -/
theorem canonicalPath_ofPlace (htargets : host.files.NoNul) (place : Place)
    (hdirect : host.files.Direct place)
    (htrim : Text.trim (Path.ofPlace place) = Path.ofPlace place) :
    host.canonicalPath (Path.ofPlace place) = .ok (Path.ofPlace place) := by
  have habsolute := Path.isAbsolute_ofPlace place
  have hparse : (FilePath.parse (Path.ofPlace place)).slashes = 1 :=
    congrArg FilePath.slashes (Path.parse_write 1 place (Or.inl rfl) hdirect.names)
  refine canonicalPath_of_route htargets _ 0 place hdirect (Nat.zero_le _)
    (Path.ofPlace_ne_nil place) hdirect.no_nul ?_ htrim fun hhome => ?_
  · unfold FileTree.startOf
    rw [if_pos habsolute]
    exact (FileTree.route_splitOn_write 1 place 0 place Nat.one_pos
      fun name hname => (hdirect.names name hname).no_slash).mpr hdirect.route
  · exact absurd (hparse.symm.trans hhome.1) Nat.one_ne_zero

end Host

end QueryDesk
