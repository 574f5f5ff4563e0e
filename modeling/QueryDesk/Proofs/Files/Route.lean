import QueryDesk.Proofs.Files.Kind
import QueryDesk.Proofs.Files.Path

/-!
# Routes

A walk keeps the entries it is in and runs on a budget of links, so two walks in
different trees cannot be compared step by step. A route is the same walk told
by places: each name leads from one directory to the next place, and a link puts
the names of its target before the rest. It counts the links and knows no bound.

A walk that arrives has followed a route, and a route with no more links than a
walk may follow is one that the walk follows to its end. Routes depend only on
the kinds of what is at the places they pass, so they are what carries over from
a tree to one with other contents.

## Main definitions

* `FileTree.Stride`, `FileTree.stride?`: Where one name leads.
* `FileTree.Route`: A place, names that lead on from it, and where they end.
* `Way.Leads`: The entries of a way are those of the tree.

## Theorems

* `Route.deterministic`: The same names lead to the same place.
* `Route.append`, `Route.split`: Routes put together and cut.
* `walkNames_induction`: A walk goes on with fewer names or with fewer links.
* `route_of_walkNames`, `walkNames_of_route`: A walk with links followed is a
  route within its budget.
* `walkNames_kept_iff`: A walk that keeps a link at the last name.
* `Route.transfer`: A route in a tree that differs in dead ends only.
-/

namespace QueryDesk

namespace FileTree

/-- Where one name leads: how many links were followed, from where the walk goes
    on, and the names put before the rest. -/
structure Stride where
  links : Nat
  place : Place
  ahead : List Text

/-- Where a name leads from a place, if it leads anywhere. -/
def stride? (tree : FileTree) (place : Place) (name : Text) : Option Stride :=
  match tree.kind? place with
  | some .directory =>
      if name.isEmpty || name == Path.here then some ⟨0, place, []⟩
      else if name == Path.up then some ⟨0, place.dropLast, []⟩
      else if maxNameBytes < (Utf8.encode name).length then none
      else
        match tree.kind? (place ++ [name]) with
        | none => none
        | some (.link target) =>
            some ⟨1, if Path.isAbsolute target then [] else place, Text.splitOn '/' target⟩
        | some _ => some ⟨0, place ++ [name], []⟩
  | _ => none

/-- From the first place the names lead to the second one, through the given
    number of links. -/
inductive Route (tree : FileTree) : Place → List Text → Nat → Place → Prop
  | arrived (place : Place) : Route tree place [] 0 place
  | step (place : Place) (name : Text) (names : List Text) (stride : Stride) (links : Nat)
      (goal : Place) (h : tree.stride? place name = some stride)
      (rest : Route tree stride.place (stride.ahead ++ names) links goal) :
      Route tree place (name :: names) (stride.links + links) goal

variable {tree : FileTree}

/-- The same names lead to the same place through as many links. -/
theorem Route.deterministic {place goal goal' : Place} {names : List Text} {links links' : Nat}
    (h : tree.Route place names links goal) (h' : tree.Route place names links' goal') :
    links = links' ∧ goal = goal' := by
  induction h generalizing links' goal' with
  | arrived place =>
      cases h'
      exact ⟨rfl, rfl⟩
  | step place name names stride links goal hstride _ ih =>
      cases h' with
      | step _ _ _ stride' links' _ hstride' hrest' =>
          rw [hstride] at hstride'
          cases hstride'
          rcases ih hrest' with ⟨hlinks, hgoal⟩
          exact ⟨by rw [hlinks], hgoal⟩

/-- Two routes one after the other. -/
theorem Route.append {place middle goal : Place} {front back : List Text} {links more : Nat}
    (h : tree.Route place front links middle) (hback : tree.Route middle back more goal) :
    tree.Route place (front ++ back) (links + more) goal := by
  induction h with
  | arrived place => rwa [List.nil_append, Nat.zero_add]
  | step place name names stride links middle hstride _ ih =>
      rw [List.cons_append, Nat.add_assoc]
      refine Route.step place name (names ++ back) stride (links + more) goal hstride ?_
      rw [← List.append_assoc]
      exact ih hback

/-- A route cut between two of its names. -/
theorem Route.split {place goal : Place} {names : List Text} {links : Nat}
    (h : tree.Route place names links goal) (front back : List Text)
    (hnames : names = front ++ back) :
    ∃ middle before after, tree.Route place front before middle
      ∧ tree.Route middle back after goal ∧ links = before + after := by
  induction h generalizing front with
  | arrived place =>
      rcases List.append_eq_nil_iff.mp hnames.symm with ⟨rfl, rfl⟩
      exact ⟨place, 0, 0, .arrived place, .arrived place, rfl⟩
  | step place name names stride links goal hstride hrest ih =>
      cases front with
      | nil =>
          rw [List.nil_append] at hnames
          refine ⟨place, 0, stride.links + links, .arrived place, ?_, (Nat.zero_add _).symm⟩
          rw [← hnames]
          exact .step place name names stride links goal hstride hrest
      | cons first front =>
          rw [List.cons_append] at hnames
          rcases List.cons.inj hnames with ⟨rfl, hrest⟩
          -- The names of a link's target belong to the front, where the link was.
          rcases ih (stride.ahead ++ front) (by rw [hrest, List.append_assoc]) with
            ⟨middle, before, after, hfront, hback, hlinks⟩
          refine ⟨middle, stride.links + before, after, ?_, hback, ?_⟩
          · exact .step place name front stride before middle hstride hfront
          · rw [hlinks, Nat.add_assoc]

-- What one name can do: it stays, goes back, meets a link, or leads to what else is there.
theorem stride?_cases (place : Place) (name : Text) (stride : Stride)
    (h : tree.stride? place name = some stride) :
    (name.isEmpty || name == Path.here) = true ∧ stride = ⟨0, place, []⟩
      ∨ (name.isEmpty || name == Path.here) = false ∧ (name == Path.up) = true
        ∧ stride = ⟨0, place.dropLast, []⟩
      ∨ (name.isEmpty || name == Path.here) = false ∧ (name == Path.up) = false
        ∧ ¬ maxNameBytes < (Utf8.encode name).length
        ∧ ((∃ target, tree.kind? (place ++ [name]) = some (.link target)
            ∧ stride = ⟨1, if Path.isAbsolute target then [] else place, Text.splitOn '/' target⟩)
          ∨ ∃ kind, tree.kind? (place ++ [name]) = some kind ∧ (∀ target, kind ≠ .link target)
            ∧ stride = ⟨0, place ++ [name], []⟩) := by
  unfold stride? at h
  split at h
  · by_cases hempty : (name.isEmpty || name == Path.here) = true
    · rw [if_pos hempty] at h
      exact Or.inl ⟨hempty, (Option.some.inj h).symm⟩
    rw [if_neg hempty] at h
    rw [Bool.not_eq_true] at hempty
    by_cases hup : (name == Path.up) = true
    · rw [if_pos hup] at h
      exact Or.inr (Or.inl ⟨hempty, hup, (Option.some.inj h).symm⟩)
    rw [if_neg hup] at h
    rw [Bool.not_eq_true] at hup
    by_cases hlong : maxNameBytes < (Utf8.encode name).length
    · rw [if_pos hlong] at h
      exact absurd h (Option.some_ne_none stride).symm
    rw [if_neg hlong] at h
    refine Or.inr (Or.inr ⟨hempty, hup, hlong, ?_⟩)
    split at h
    · exact absurd h (Option.some_ne_none stride).symm
    · next target hchild => exact Or.inl ⟨target, hchild, (Option.some.inj h).symm⟩
    · next kind hlink hchild =>
        exact Or.inr ⟨kind, hchild, hlink, (Option.some.inj h).symm⟩
  · exact absurd h (Option.some_ne_none stride).symm

theorem stride?_directory (place : Place) (name : Text) (stride : Stride)
    (h : tree.stride? place name = some stride) : tree.kind? place = some .directory := by
  unfold stride? at h
  split at h
  · next hkind => exact hkind
  · exact absurd h (Option.some_ne_none stride).symm

-- What is under a name and no link is where the name leads.
theorem stride?_child {place : Place} {name : Text} {kind : Entry.Kind}
    (hplace : tree.kind? place = some .directory)
    (hkept : (name.isEmpty || name == Path.here) = false) (hup : (name == Path.up) = false)
    (hshort : ¬ maxNameBytes < (Utf8.encode name).length)
    (hkind : tree.kind? (place ++ [name]) = some kind) (hlink : ∀ target, kind ≠ .link target) :
    tree.stride? place name = some ⟨0, place ++ [name], []⟩ := by
  rw [stride?, hplace]
  simp only [hkept, hup, Bool.false_eq_true, if_false, if_neg hshort, hkind]

/-- A name leads where it led before in a tree that still has the directory, the same
    link under the name, or else something under it that is no link. -/
theorem stride?_transfer {other : FileTree} {place : Place} {name : Text} {stride : Stride}
    (h : tree.stride? place name = some stride) (hplace : other.kind? place = some .directory)
    (hlink : ∀ target, tree.kind? (place ++ [name]) = some (.link target) →
      other.kind? (place ++ [name]) = some (.link target))
    (hkind : ∀ kind, stride.place = place ++ [name] →
      tree.kind? (place ++ [name]) = some kind → (∀ target, kind ≠ .link target) →
      ∃ after, other.kind? (place ++ [name]) = some after ∧ ∀ target, after ≠ .link target) :
    other.stride? place name = some stride := by
  rcases stride?_cases place name stride h with
    ⟨hkept, rfl⟩ | ⟨hkept, hup, rfl⟩ | ⟨hkept, hup, hshort, hchild⟩
  · rw [stride?, hplace]
    simp only [hkept, if_true]
  · rw [stride?, hplace]
    simp only [hkept, hup, Bool.false_eq_true, if_false, if_true]
  · rcases hchild with ⟨target, htarget, rfl⟩ | ⟨kind, hfound, hnolink, rfl⟩
    · rw [stride?, hplace]
      simp only [hkept, hup, Bool.false_eq_true, if_false, if_neg hshort, hlink target htarget]
    · rcases hkind kind rfl hfound hnolink with ⟨after, hafter, hstill⟩
      exact stride?_child hplace hkept hup hshort hafter hstill

theorem Route.directory {place goal : Place} {names : List Text} {links : Nat}
    (h : tree.Route place names links goal) (hnames : names ≠ []) :
    tree.kind? place = some .directory := by
  cases h with
  | arrived => exact absurd rfl hnames
  | step _ name _ stride _ _ hstride _ => exact stride?_directory place name stride hstride

/-! ## Proper names -/

theorem stride?_proper (place : Place) (name : Text) (hname : Path.Proper name)
    (hplace : tree.kind? place = some .directory)
    (hshort : ¬ maxNameBytes < (Utf8.encode name).length) :
    tree.stride? place name = match tree.kind? (place ++ [name]) with
      | none => none
      | some (.link target) =>
          some ⟨1, if Path.isAbsolute target then [] else place, Text.splitOn '/' target⟩
      | some _ => some ⟨0, place ++ [name], []⟩ := by
  unfold stride?
  rw [hplace]
  simp only [hname.kept, Bool.false_eq_true, if_false, if_neg hname.not_up, if_neg hshort]

end FileTree

/-! ## Walks and routes -/

/-- The entries of a way are those of the tree. -/
def Way.Leads (tree : FileTree) : Way → Prop
  | [] => True
  | (name, entry) :: above =>
      tree.entry? (Way.place above ++ [name]) = some entry ∧ Way.Leads tree above

theorem Way.place_cons (name : Text) (entry : Entry) (above : Way) :
    Way.place ((name, entry) :: above) = Way.place above ++ [name] := by
  rw [Way.place, List.map_cons, List.reverse_cons]
  rfl

theorem Way.place_tail (way : Way) : Way.place way.tail = (Way.place way).dropLast := by
  cases way with
  | nil => rfl
  | cons entry above =>
      rw [List.tail_cons, Way.place_cons, List.dropLast_concat]

theorem Way.Leads.tail {tree : FileTree} {way : Way} (h : way.Leads tree) :
    Way.Leads tree way.tail := by
  cases way with
  | nil => trivial
  | cons entry above => exact h.2

-- The entry that a walk is in.
theorem Way.Leads.entry? {tree : FileTree} {way : Way} (h : way.Leads tree) :
    tree.entry? way.place = some ((way.head?.map (·.2)).getD tree.root) := by
  cases way with
  | nil => rfl
  | cons entry above =>
      rw [Way.place_cons]
      exact h.1

namespace FileTree

variable {tree : FileTree} {last : LastName} {way : Way} {name : Text} {rest : List Text}

-- What the tree has under a name, and its kind.
theorem entry?_concat {place : Place} {entry : Entry} (h : tree.entry? place = some entry)
    (name : Text) : tree.entry? (place ++ [name]) = Table.get? name entry.entries := by
  unfold entry? at h ⊢
  rw [Entry.at?_append, h, Option.bind_some, Entry.at?_cons]
  exact Option.bind_fun_some _

theorem kind?_concat {place : Place} {entry : Entry} (h : tree.entry? place = some entry)
    (name : Text) :
    tree.kind? (place ++ [name]) = (Table.get? name entry.entries).map Entry.kind := by
  rw [kind?, entry?_concat h]

-- Outside of a directory a walk stops at the next name.
theorem advance_outside (hleads : way.Leads tree) (h : tree.kind? way.place ≠ some .directory) :
    tree.advance last way (name :: rest) = .stopped .notDirectory := by
  have hadvance := advance.eq_2 tree last way name rest
  rw [kind?, hleads.entry?, Option.map_some] at h
  cases hinside : (way.head?.map (·.2)).getD tree.root with
  | file content executable => rwa [hinside] at hadvance
  | link target => rwa [hinside] at hadvance
  | directory entries =>
      rw [hinside] at h
      exact absurd rfl h

-- In a directory it is the entry under the name that counts.
theorem advance_inside (hleads : way.Leads tree) (h : tree.kind? way.place = some .directory)
    (hlast : last ≠ .written) :
    tree.advance last way (name :: rest)
      = if name.isEmpty || name == Path.here then tree.advance last way rest
        else if name == Path.up then tree.advance last way.tail rest
        else if maxNameBytes < (Utf8.encode name).length then .stopped .nameTooLong
        else
          match tree.entry? (way.place ++ [name]) with
          | none => if rest.isEmpty then .lacks way.place name else .stopped .notFound
          | some (.link target) =>
              if rest.isEmpty && last == .kept then .arrived (way.place ++ [name])
              else .meets way target rest
          | some entry => tree.advance last ((name, entry) :: way) rest := by
  have hentry := hleads.entry?
  rw [kind?, hentry, Option.map_some] at h
  rcases Entry.kind_eq_directory _ (Option.some.inj h) with ⟨entries, hentries⟩
  have hget := entry?_concat hentry name
  rw [hentries] at hget
  change _ = Table.get? name entries at hget
  have hwritten : (last == .written && endsInSlash rest) = false := by
    rw [beq_eq_false_iff_ne.mpr hlast, Bool.false_and]
  have hadvance := advance.eq_2 tree last way name rest
  rw [hentries] at hadvance
  simp only [hwritten, Bool.false_eq_true, if_false] at hadvance
  rw [hget]
  refine hadvance.trans ?_
  cases Table.get? name entries with
  | none => rfl
  | some child => cases child <;> rfl

-- One name of a walk, up to the next one or up to a link.
theorem advance_of_stride (hleads : way.Leads tree) (stride : Stride)
    (hstride : tree.stride? way.place name = some stride) (hlast : last ≠ .written)
    (hkept : last = .kept → rest ≠ []) :
    (∃ further : Way, further.Leads tree ∧ further.place = stride.place ∧ stride.links = 0
        ∧ stride.ahead = [] ∧ tree.advance last way (name :: rest) = tree.advance last further rest)
      ∨ ∃ target, stride.links = 1 ∧ stride.ahead = Text.splitOn '/' target
        ∧ stride.place = (if Path.isAbsolute target then [] else way.place)
        ∧ tree.advance last way (name :: rest) = .meets way target rest := by
  rw [advance_inside hleads (stride?_directory way.place name stride hstride) hlast]
  rcases stride?_cases way.place name stride hstride with
    ⟨hempty, rfl⟩ | ⟨hempty, hup, rfl⟩ | ⟨hempty, hup, hlong, hchild⟩
  · rw [hempty, if_pos rfl]
    exact Or.inl ⟨way, hleads, rfl, rfl, rfl, rfl⟩
  · rw [hempty, hup, if_neg Bool.false_ne_true, if_pos rfl]
    exact Or.inl ⟨way.tail, hleads.tail, Way.place_tail way, rfl, rfl, rfl⟩
  · rw [hempty, hup, if_neg Bool.false_ne_true, if_neg Bool.false_ne_true, if_neg hlong]
    rcases hchild with ⟨target, hlink, rfl⟩ | ⟨kind, hkind, hlink, rfl⟩
    · rcases Option.map_eq_some_iff.mp hlink with ⟨child, hfound, hkind⟩
      rw [hfound, Entry.eq_link child target hkind]
      -- Only a walk that keeps the last link ends here, and this is not its last name.
      have hmore : ¬ (rest.isEmpty && last == .kept) = true := by
        rw [Bool.and_eq_true, beq_iff_eq]
        exact fun h => hkept h.2 (List.isEmpty_iff.mp h.1)
      exact Or.inr ⟨target, rfl, rfl, rfl, if_neg hmore⟩
    · rcases Option.map_eq_some_iff.mp hkind with ⟨child, hfound, rfl⟩
      refine Or.inl ⟨(name, child) :: way, ⟨hfound, hleads⟩, Way.place_cons _ _ _, rfl, rfl, ?_⟩
      rw [hfound]
      cases child with
      | link target => exact absurd rfl (hlink target)
      | file content executable => rfl
      | directory below => rfl

-- One name of a walk, a link it meets included.
theorem walkNames_of_stride (hleads : way.Leads tree) (stride : Stride)
    (hstride : tree.stride? way.place name = some stride) (hlast : last ≠ .written)
    (hkept : last = .kept → rest ≠ []) :
    ∃ further : Way, further.Leads tree ∧ further.place = stride.place ∧ ∀ links,
      tree.walkNames last (links + 1) way (name :: rest)
        = tree.walkNames last (links + 1 - stride.links) further (stride.ahead ++ rest) := by
  rcases advance_of_stride hleads stride hstride hlast hkept with
    ⟨further, hfurther, hplace, hlinks, hahead, hadvance⟩
    | ⟨target, hlinks, hahead, hplace, hadvance⟩
  · refine ⟨further, hfurther, hplace, fun links => ?_⟩
    rw [hlinks, hahead, Nat.sub_zero, List.nil_append, walkNames, walkNames, hadvance]
  · refine ⟨if Path.isAbsolute target then [] else way, ?_, ?_, fun links => ?_⟩
    · split
      · trivial
      · exact hleads
    · rw [hplace]
      split <;> rfl
    · rw [hlinks, hahead, Nat.add_sub_cancel, walkNames, hadvance]

-- A name that leads nowhere ends a walk. At most the last name of it is missing.
theorem walkNames_stuck (hleads : way.Leads tree) (links : Nat) (rest : List Text)
    (hstride : tree.stride? way.place name = none) (hlast : last ≠ .written) :
    (∃ cause, tree.walkNames last (links + 1) way (name :: rest) = .error cause)
      ∨ rest = [] ∧ tree.walkNames last (links + 1) way (name :: rest)
        = .ok (.missing way.place name) := by
  rw [walkNames]
  by_cases hinside : tree.kind? way.place = some .directory
  · rw [advance_inside hleads hinside hlast]
    unfold stride? at hstride
    rw [hinside] at hstride
    simp only at hstride
    by_cases hempty : (name.isEmpty || name == Path.here) = true
    · rw [if_pos hempty] at hstride
      exact absurd hstride (Option.some_ne_none _)
    rw [if_neg hempty] at hstride ⊢
    by_cases hup : (name == Path.up) = true
    · rw [if_pos hup] at hstride
      exact absurd hstride (Option.some_ne_none _)
    rw [if_neg hup] at hstride ⊢
    -- A name that moves can fail by its length or because nothing is there.
    by_cases hlong : maxNameBytes < (Utf8.encode name).length
    · rw [if_pos hlong]
      exact Or.inl ⟨_, rfl⟩
    rw [if_neg hlong] at hstride ⊢
    rw [kind?] at hstride
    cases hchild : tree.entry? (way.place ++ [name]) with
    | none =>
        by_cases hrest : rest.isEmpty = true
        · refine Or.inr ⟨List.isEmpty_iff.mp hrest, ?_⟩
          simp only [if_pos hrest]
        · simp only [if_neg hrest]
          exact Or.inl ⟨_, rfl⟩
    | some child =>
        rw [hchild] at hstride
        cases child <;> exact absurd hstride (Option.some_ne_none _)
  · rw [advance_outside hleads hinside]
    exact Or.inl ⟨_, rfl⟩

-- A name is one step or one link.
theorem stride?_links (place : Place) (stride : Stride)
    (h : tree.stride? place name = some stride) :
    stride.links = 0 ∧ stride.ahead = [] ∨ stride.links = 1 := by
  rcases stride?_cases place name stride h with
    ⟨_, rfl⟩ | ⟨_, _, rfl⟩ | ⟨_, _, _, ⟨_, _, rfl⟩ | ⟨_, _, _, rfl⟩⟩
  · exact Or.inl ⟨rfl, rfl⟩
  · exact Or.inl ⟨rfl, rfl⟩
  · exact Or.inr rfl
  · exact Or.inl ⟨rfl, rfl⟩

/-- Induction along a walk: a name that leads somewhere is followed by a walk with fewer
    names, or by one with fewer links left. -/
theorem walkNames_induction (back : List Text) (hlast : last ≠ .written)
    (hkept : last = .kept → back ≠ []) {P : Nat → Way → List Text → Prop}
    (zero : ∀ way names, P 0 way names)
    (nil : ∀ links way, way.Leads tree → P (links + 1) way [])
    (stuck : ∀ links way name front, way.Leads tree → tree.stride? way.place name = none →
      P (links + 1) way (name :: front))
    (step : ∀ links way name front stride further, tree.stride? way.place name = some stride →
      Way.place further = stride.place →
      tree.walkNames last (links + 1) way (name :: front ++ back)
        = tree.walkNames last (links + 1 - stride.links) further (stride.ahead ++ front ++ back) →
      P (links + 1 - stride.links) further (stride.ahead ++ front) →
      P (links + 1) way (name :: front))
    (links : Nat) (front : List Text) (hleads : way.Leads tree) : P links way front := by
  induction links generalizing way front with
  | zero => exact zero way front
  | succ links ihlinks =>
      induction front generalizing way with
      | nil => exact nil links way hleads
      | cons name front ihfront =>
          cases hstride : tree.stride? way.place name with
          | none => exact stuck links way name front hleads hstride
          | some stride =>
              rcases walkNames_of_stride hleads stride hstride hlast
                (fun hlast hrest => hkept hlast (List.append_eq_nil_iff.mp hrest).2) with
                ⟨further, hfurther, hplace, hwalk⟩
              refine step links way name front stride further hstride hplace ?_ ?_
              · rw [List.append_assoc]
                exact hwalk links
              · rcases stride?_links way.place stride hstride with ⟨hlinks, hahead⟩ | hlinks
                · rw [hlinks, hahead]
                  exact ihfront hfurther
                · rw [hlinks, Nat.add_sub_cancel]
                  exact ihlinks _ hfurther

/-- A walk that gets past some names has followed a route along them. -/
theorem route_of_walkNames (links : Nat) (front back : List Text) (reached : Reached)
    (hleads : way.Leads tree) (hlast : last ≠ .written) (hkept : last = .kept → back ≠ [])
    (hback : back ≠ [] ∨ ∃ goal, reached = .present goal)
    (h : tree.walkNames last links way (front ++ back) = .ok reached) :
    ∃ (used : Nat) (further : Way), used < links ∧ further.Leads tree
      ∧ tree.Route way.place front used further.place
      ∧ tree.walkNames last (links - used) further back = .ok reached := by
  revert h
  refine walkNames_induction back hlast hkept (P := fun links way front =>
    tree.walkNames last links way (front ++ back) = .ok reached →
      ∃ (used : Nat) (further : Way), used < links ∧ further.Leads tree
        ∧ tree.Route way.place front used further.place
        ∧ tree.walkNames last (links - used) further back = .ok reached)
    ?_ ?_ ?_ ?_ links front hleads
  · exact fun _ _ h => absurd h (by simp only [walkNames, reduceCtorEq, not_false_eq_true])
  · exact fun links way hleads h => ⟨0, way, Nat.succ_pos links, hleads, .arrived way.place, h⟩
  · intro links way name front hleads hstride h
    rcases walkNames_stuck hleads links (front ++ back) hstride hlast with
      ⟨cause, hstop⟩ | ⟨hrest, hmissing⟩
    · exact absurd (hstop.symm.trans h) (by simp only [reduceCtorEq, not_false_eq_true])
    · rcases hback with hback | ⟨goal, rfl⟩
      · exact absurd (List.append_eq_nil_iff.mp hrest).2 hback
      · exact absurd (hmissing.symm.trans h)
          (by simp only [Except.ok.injEq, reduceCtorEq, not_false_eq_true])
  · intro links way name front stride further hstride hplace hwalk ih h
    rcases ih (hwalk.symm.trans h) with ⟨used, final, hused, hfinal, hroute, hend⟩
    rw [hplace] at hroute
    refine ⟨stride.links + used, final, by omega, hfinal,
      .step way.place name front stride used final.place hstride hroute, ?_⟩
    rwa [← Nat.sub_sub]

/-- A walk gets past the names of a route that takes no more links than are
    left. -/
theorem walkNames_of_route {place goal : Place} {front : List Text} {used : Nat}
    (h : tree.Route place front used goal) (last : LastName) (way : Way) (links : Nat)
    (back : List Text) (hplace : way.place = place) (hleads : way.Leads tree)
    (hlast : last ≠ .written) (hkept : last = .kept → back ≠ []) (hused : used < links) :
    ∃ further : Way, further.Leads tree ∧ further.place = goal
      ∧ tree.walkNames last links way (front ++ back)
        = tree.walkNames last (links - used) further back := by
  induction h generalizing way links with
  | arrived place => exact ⟨way, hleads, hplace, rfl⟩
  | step place name names stride used goal hstride _ ih =>
      rw [← hplace] at hstride
      rcases walkNames_of_stride hleads stride hstride hlast
        (fun hlast hrest => hkept hlast (List.append_eq_nil_iff.mp hrest).2) with
        ⟨next, hnext, hnextPlace, hwalk⟩
      cases links with
      | zero => exact absurd hused (Nat.not_lt_zero _)
      | succ links =>
          rcases ih next (links + 1 - stride.links) hnextPlace hnext (by omega) with
            ⟨further, hfurther, hgoal, hrest⟩
          refine ⟨further, hfurther, hgoal, ?_⟩
          rw [List.cons_append, hwalk links, ← List.append_assoc, hrest, Nat.sub_sub]

-- The last name of a walk that keeps a link there.
theorem walkNames_kept_iff (links : Nat) (reached : Reached) (hleads : way.Leads tree)
    (hname : Path.Proper name) :
    tree.walkNames .kept (links + 1) way [name] = .ok reached
      ↔ tree.kind? way.place = some .directory ∧ ¬ maxNameBytes < (Utf8.encode name).length
        ∧ reached = match tree.kind? (way.place ++ [name]) with
          | none => .missing way.place name
          | some _ => .present (way.place ++ [name]) := by
  rw [walkNames]
  by_cases hinside : tree.kind? way.place = some .directory
  · rw [advance_inside hleads hinside (by decide), hname.kept, if_neg Bool.false_ne_true,
      if_neg hname.not_up]
    by_cases hlong : maxNameBytes < (Utf8.encode name).length
    · rw [if_pos hlong]
      exact iff_of_false (by simp only [reduceCtorEq, not_false_eq_true]) fun h => h.2.1 hlong
    rw [if_neg hlong]
    simp only [hinside, hlong, not_false_eq_true, true_and]
    rw [kind?]
    cases tree.entry? (way.place ++ [name]) with
    | none => exact ⟨fun h => (Except.ok.inj h).symm, fun h => by rw [h]; rfl⟩
    | some child =>
        have harrived : tree.advance .kept ((name, child) :: way) []
            = .arrived (way.place ++ [name]) := by
          rw [advance, Way.place_cons]
        cases child with
        | link target => exact ⟨fun h => (Except.ok.inj h).symm, fun h => by rw [h]; rfl⟩
        | file content executable =>
            simp only [harrived]
            exact ⟨fun h => (Except.ok.inj h).symm, fun h => by rw [h]; rfl⟩
        | directory below =>
            simp only [harrived]
            exact ⟨fun h => (Except.ok.inj h).symm, fun h => by rw [h]; rfl⟩
  · rw [advance_outside hleads hinside]
    exact iff_of_false (by simp only [reduceCtorEq, not_false_eq_true]) fun h => hinside h.1

-- A route one proper name further, when there is no link under that name.
theorem Route.enter {place parent : Place} {front : List Text} {used : Nat} {kind : Entry.Kind}
    (h : tree.Route place front used parent) (hname : Path.Proper name)
    (hparent : tree.kind? parent = some .directory)
    (hshort : ¬ maxNameBytes < (Utf8.encode name).length)
    (hkind : tree.kind? (parent ++ [name]) = some kind) (hlink : ∀ target, kind ≠ .link target) :
    tree.Route place (front ++ [name]) used (parent ++ [name]) := by
  have hstride : tree.stride? parent name = some ⟨0, parent ++ [name], []⟩ :=
    stride?_child hparent hname.kept (Bool.eq_false_iff.mpr hname.not_up) hshort hkind hlink
  have hlast := Route.step parent name [] _ 0 _ hstride (.arrived (parent ++ [name]))
  exact h.append hlast

/-! ## Other trees -/

/-- The kinds of two trees are the same but at some places, and there the first
    tree has neither a directory nor a link. -/
structure DeadEnds (tree other : FileTree) (apart : Place → Prop) : Prop where
  same : ∀ place, ¬ apart place → tree.kind? place = other.kind? place
  noDirectory : ∀ place, apart place → tree.kind? place ≠ some .directory
  noLink : ∀ place target, apart place → tree.kind? place ≠ some (.link target)

/-- A route that does not end at one of the dead ends is a route in the other
    tree, because it cannot have passed one. -/
theorem Route.transfer {other : FileTree} {apart : Place → Prop} {place goal : Place}
    {names : List Text} {links : Nat} (hdead : DeadEnds tree other apart)
    (h : tree.Route place names links goal) (hgoal : ¬ apart goal) :
    other.Route place names links goal := by
  induction h with
  | arrived place => exact .arrived place
  | step place name names stride links goal hstride hrest ih =>
      refine .step place name names stride links goal ?_ (ih hgoal)
      have hplace : ¬ apart place := fun hp =>
        hdead.noDirectory place hp (stride?_directory place name stride hstride)
      -- From a dead end there is no further step, so the route would end there.
      have hnext : ¬ apart stride.place := by
        intro hp
        have hnone : stride.ahead ++ names = [] := by
          by_cases hnames : stride.ahead ++ names = []
          · exact hnames
          · exact absurd (hrest.directory hnames) (hdead.noDirectory _ hp)
        rw [hnone] at hrest
        cases hrest
        exact hgoal hp
      refine stride?_transfer hstride ?_ (fun target htarget => ?_)
        fun kind hat hkind hnolink => ⟨kind, ?_, hnolink⟩
      · rw [← hdead.same place hplace, stride?_directory place name stride hstride]
      · rw [← hdead.same _ fun hp => hdead.noLink _ target hp htarget, htarget]
      · rw [← hdead.same _ (hat ▸ hnext), hkind]

end FileTree

end QueryDesk
