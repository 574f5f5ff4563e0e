import QueryDesk.Files.Change
import QueryDesk.Proofs.Table

/-!
# What a change of one entry leaves

Putting an entry at a place makes every directory above it another entry,
because a directory is an entry with all that is below it. What a walk asks for
is less: whether there is a directory, a link with a target, or a file at a
place. This kind stays the same at every place but the one that was changed, as
long as nothing is below that place before or after. So changes are told by the
kinds they leave.

## Main definitions

* `Entry.Kind`: What is at a place, without what is below it.
* `Entry.Bare`: An entry that holds nothing.
* `FileTree.kind?`: The kind of what is at a place.

## Theorems

* `kindAt?_put`, `kindAt?_remove`: The kinds below an entry after one change.
* `kind?_put`, `kind?_remove`: The kinds of a tree after one change.
* `entry?_put_self`: What was put at a place is there.
-/

namespace QueryDesk

theorem Place.ne_concat (place : Place) (name : Text) : place ≠ place ++ [name] := fun h =>
  List.cons_ne_nil name [] (List.self_eq_append_right.mp h)

namespace Entry

/-- What is at a place, without what is below it. -/
inductive Kind
  | file (content : Bytes) (executable : Bool)
  | link (target : Text)
  | directory
  deriving DecidableEq, Repr

/-- The kind of an entry. -/
def kind : Entry → Kind
  | .file content executable => .file content executable
  | .link target => .link target
  | .directory _ => .directory

/-- The kind of what is at a place below. -/
def kindAt? (entry : Entry) (place : Place) : Option Kind :=
  (entry.at? place).map kind

/-- The entry holds nothing: it is no directory, or an empty one. -/
def Bare (entry : Entry) : Prop :=
  entry.entries = []

theorem at?_cons (entry : Entry) (name : Text) (rest : Place) :
    entry.at? (name :: rest)
      = (Table.get? name entry.entries).bind fun child => child.at? rest := by
  rw [at?]
  cases Table.get? name entry.entries <;> rfl

theorem at?_append (entry : Entry) (above below : Place) :
    entry.at? (above ++ below) = (entry.at? above).bind fun found => found.at? below := by
  induction above generalizing entry with
  | nil => rfl
  | cons name above ih =>
      rw [List.cons_append, at?_cons, at?_cons, Option.bind_assoc]
      exact Option.bind_congr fun child _ => ih child

theorem Bare.kindAt?_cons {entry : Entry} (h : entry.Bare) (name : Text) (rest : Place) :
    entry.kindAt? (name :: rest) = none := by
  rw [kindAt?, at?, h]
  rfl

theorem bare_of_kind (entry : Entry) (h : entry.kind ≠ .directory) : entry.Bare := by
  cases entry with
  | file content executable => rfl
  | link target => rfl
  | directory entries => exact absurd rfl h

theorem kind_eq_directory (entry : Entry) (h : entry.kind = .directory) :
    ∃ entries, entry = .directory entries := by
  cases entry with
  | file content executable => exact absurd h (by simp only [kind, reduceCtorEq, not_false_eq_true])
  | link target => exact absurd h (by simp only [kind, reduceCtorEq, not_false_eq_true])
  | directory entries => exact ⟨entries, rfl⟩

theorem eq_link (entry : Entry) (target : Text) (h : entry.kind = .link target) :
    entry = .link target := by
  cases entry with
  | file content executable => exact absurd h (by simp only [kind, reduceCtorEq, not_false_eq_true])
  | link other => rw [Kind.link.inj h]
  | directory entries => exact absurd h (by simp only [kind, reduceCtorEq, not_false_eq_true])

-- The kinds below a directory one of whose entries was changed.
theorem kindAt?_directory_cons (entries : Table Entry) (name : Text) (rest : Place) :
    (directory entries).kindAt? (name :: rest)
      = (Table.get? name entries).bind fun child => child.kindAt? rest := by
  rw [kindAt?, at?_cons, Option.map_bind]
  rfl

-- A directory with another entry, or with none, under one name. Neither the old entry nor the
-- new one has anything below, so all other kinds are the same.
theorem kindAt?_replaced (entries changed : Table Entry) (name : Text) (new : Option Entry)
    (hget : ∀ other, Table.get? other changed
      = if name = other then new else Table.get? other entries)
    (hold : ∀ child, Table.get? name entries = some child → child.Bare)
    (hnew : ∀ child, new = some child → child.Bare) (place : Place) :
    (directory changed).kindAt? place
      = if place = [name] then new.map kind else (directory entries).kindAt? place := by
  cases place with
  | nil => rfl
  | cons first rest =>
      rw [kindAt?_directory_cons, kindAt?_directory_cons, hget]
      by_cases hname : name = first
      · rw [if_pos hname, ← hname]
        cases rest with
        | nil =>
            rw [if_pos rfl]
            cases new <;> rfl
        | cons second more =>
            -- Below the name there was nothing before, and there is nothing now.
            have hnone : ∀ found : Option Entry, (∀ child, found = some child → child.Bare) →
                (found.bind fun child => child.kindAt? (second :: more)) = none := by
              intro found hbare
              cases found with
              | none => rfl
              | some child => exact (hbare child rfl).kindAt?_cons second more
            rw [if_neg (by simp only [List.cons.injEq, reduceCtorEq, and_false, not_false_eq_true]),
              hnone new hnew, hnone _ hold]
      · rw [if_neg hname, if_neg]
        exact fun heq => hname (List.cons.inj heq).1.symm

-- A directory one of whose entries has another kind at one place below.
theorem kindAt?_descend (entries : Table Entry) (top : Text) (child changed : Entry)
    (below : Place) (new : Option Kind) (hget : Table.get? top entries = some child)
    (h : ∀ place, changed.kindAt? place = if place = below then new else child.kindAt? place)
    (place : Place) :
    (directory (Table.put top changed entries)).kindAt? place
      = if place = top :: below then new else (directory entries).kindAt? place := by
  cases place with
  | nil => rfl
  | cons first rest =>
      rw [kindAt?_directory_cons, kindAt?_directory_cons, Table.get?_put]
      by_cases htop : top = first
      · rw [if_pos htop, ← htop, hget, Option.bind_some, Option.bind_some, h rest]
        simp only [List.cons.injEq, true_and]
      · rw [if_neg htop, if_neg]
        exact fun heq => htop (List.cons.inj heq).1.symm

theorem bare_of_kindAt? (entries : Table Entry) (name : Text)
    (h : (directory entries).kindAt? [name] ≠ some .directory) (child : Entry)
    (hget : Table.get? name entries = some child) : child.Bare := by
  refine bare_of_kind child fun hkind => h ?_
  rw [kindAt?_directory_cons, hget, Option.bind_some, kindAt?, at?, Option.map_some, hkind]

-- A place below a directory is below one of its entries.
theorem exists_child (entry : Entry) (top : Text) (rest : Place) (kind : Kind)
    (h : entry.kindAt? (top :: rest) = some kind) :
    ∃ entries child, entry = .directory entries ∧ Table.get? top entries = some child
      ∧ child.kindAt? rest = some kind := by
  have hentry : entry.kind = .directory := by
    by_cases hkind : entry.kind = .directory
    · exact hkind
    · rw [(bare_of_kind entry hkind).kindAt?_cons] at h
      exact absurd h (by simp only [reduceCtorEq, not_false_eq_true])
  rcases kind_eq_directory entry hentry with ⟨entries, rfl⟩
  rw [kindAt?_directory_cons] at h
  rcases Option.bind_eq_some_iff.mp h with ⟨child, hget, hchild⟩
  exact ⟨entries, child, rfl, hget, hchild⟩

/-- The kinds below an entry in which one that holds nothing was put in the place
    of nothing, or of what is no directory. -/
theorem kindAt?_put (entry new : Entry) (parent place : Place) (name : Text)
    (hparent : entry.kindAt? parent = some .directory)
    (hold : entry.kindAt? (parent ++ [name]) ≠ some .directory) (hnew : new.Bare) :
    (entry.put (parent ++ [name]) new).kindAt? place
      = if place = parent ++ [name] then some new.kind else entry.kindAt? place := by
  induction parent generalizing entry place with
  | nil =>
      rcases kind_eq_directory entry (Option.some.inj hparent) with ⟨entries, rfl⟩
      refine kindAt?_replaced entries (Table.put name new entries) name (some new)
        (fun other => Table.get?_put name other new entries) (bare_of_kindAt? entries name hold) ?_
        place
      exact fun child hchild => Option.some.inj hchild ▸ hnew
  | cons top parent ih =>
      rcases exists_child entry top parent _ hparent with ⟨entries, child, rfl, hget, hchild⟩
      rw [List.cons_append, kindAt?_directory_cons, hget, Option.bind_some] at hold
      have hput : (directory entries).put (top :: (parent ++ [name])) new
          = .directory (Table.put top (child.put (parent ++ [name]) new) entries) := by
        rw [put]
        change directory (Table.put top (((Table.get? top entries).getD _).put _ new) entries) = _
        rw [hget, Option.getD_some]
      rw [List.cons_append, hput]
      exact kindAt?_descend entries top child _ _ _ hget (ih child · hchild hold) place

/-- The kinds below an entry from which one that is no directory was taken. -/
theorem kindAt?_remove (entry : Entry) (parent place : Place) (name : Text)
    (hparent : entry.kindAt? parent = some .directory)
    (hold : entry.kindAt? (parent ++ [name]) ≠ some .directory) :
    (entry.remove (parent ++ [name])).kindAt? place
      = if place = parent ++ [name] then none else entry.kindAt? place := by
  induction parent generalizing entry place with
  | nil =>
      rcases kind_eq_directory entry (Option.some.inj hparent) with ⟨entries, rfl⟩
      exact kindAt?_replaced entries (Table.erase name entries) name none
        (fun other => Table.get?_erase name other entries) (bare_of_kindAt? entries name hold)
        (fun child hchild => absurd hchild (Option.some_ne_none child).symm) place
  | cons top parent ih =>
      rcases exists_child entry top parent _ hparent with ⟨entries, child, rfl, hget, hchild⟩
      rw [List.cons_append, kindAt?_directory_cons, hget, Option.bind_some] at hold
      have hremove : (directory entries).remove (top :: (parent ++ [name]))
          = .directory (Table.put top (child.remove (parent ++ [name])) entries) := by
        rw [remove.eq_3]
        · rw [Entry.entries, hget]
        · exact fun h => absurd h (List.append_ne_nil_of_right_ne_nil _ (List.cons_ne_nil _ _))
      rw [List.cons_append, hremove]
      exact kindAt?_descend entries top child _ _ _ hget (ih child · hchild hold) place

-- What was put at a place is there.
theorem at?_put_self (entry new : Entry) (place : Place) :
    (entry.put place new).at? place = some new := by
  induction place generalizing entry with
  | nil => rfl
  | cons name rest ih =>
      rw [put, at?_cons, Entry.entries, Table.get?_put, if_pos rfl]
      exact ih _

end Entry

namespace FileTree

/-- The kind of what is at a place. -/
def kind? (tree : FileTree) (place : Place) : Option Entry.Kind :=
  (tree.entry? place).map Entry.kind

theorem kind?_root (tree : FileTree) : tree.kind? [] = some .directory := rfl

theorem root_put (tree : FileTree) (parent : Place) (name : Text) (entry : Entry) :
    (tree.put (parent ++ [name]) entry).root = tree.root.put (parent ++ [name]) entry := by
  cases parent <;> rfl

theorem root_remove (tree : FileTree) (parent : Place) (name : Text) :
    (tree.remove (parent ++ [name])).root = tree.root.remove (parent ++ [name]) := by
  have hdirectory : ((tree.root.remove (parent ++ [name])).kind) = .directory := by
    unfold Entry.remove
    split
    · rfl
    · rfl
    · split <;> rfl
  rcases Entry.kind_eq_directory _ hdirectory with ⟨entries, hentries⟩
  rw [remove, hentries]
  rfl

theorem kind?_concat_of_none (tree : FileTree) (place : Place) (name : Text)
    (h : tree.kind? place = none) : tree.kind? (place ++ [name]) = none := by
  rw [kind?, Option.map_eq_none_iff, entry?] at h ⊢
  rw [Entry.at?_append, h, Option.bind_none]

-- What has something in it is a directory.
theorem kind?_above (tree : FileTree) (place : Place) (name : Text)
    (h : tree.kind? (place ++ [name]) ≠ none) : tree.kind? place = some .directory := by
  rw [kind?, ne_eq, Option.map_eq_none_iff, entry?, Entry.at?_append] at h
  rw [kind?, entry?]
  cases hfound : tree.root.at? place with
  | none =>
      rw [hfound] at h
      exact absurd rfl h
  | some found =>
      rw [hfound, Option.bind_some, Entry.at?_cons] at h
      by_cases hkind : found.kind = .directory
      · rw [Option.map_some, hkind]
      · rw [Entry.bare_of_kind found hkind] at h
        exact absurd rfl h

/-- The kinds of a tree in which an entry that holds nothing was put in the place
    of nothing, or of what is no directory. -/
theorem kind?_put (tree : FileTree) (new : Entry) (parent place : Place) (name : Text)
    (hparent : tree.kind? parent = some .directory)
    (hold : tree.kind? (parent ++ [name]) ≠ some .directory) (hnew : new.Bare) :
    (tree.put (parent ++ [name]) new).kind? place
      = if place = parent ++ [name] then some new.kind else tree.kind? place := by
  rw [kind?, entry?, root_put]
  exact Entry.kindAt?_put tree.root new parent place name hparent hold hnew

/-- The kinds of a tree from which an entry was taken that is no directory. -/
theorem kind?_remove (tree : FileTree) (parent place : Place) (name : Text)
    (hparent : tree.kind? parent = some .directory)
    (hold : tree.kind? (parent ++ [name]) ≠ some .directory) :
    (tree.remove (parent ++ [name])).kind? place
      = if place = parent ++ [name] then none else tree.kind? place := by
  rw [kind?, entry?, root_remove]
  exact Entry.kindAt?_remove tree.root parent place name hparent hold

/-- What was put at a place is there. -/
theorem entry?_put_self (tree : FileTree) (parent : Place) (name : Text) (entry : Entry) :
    FileTree.entry? (tree.put (parent ++ [name]) entry) (parent ++ [name]) = some entry := by
  unfold entry?
  rw [root_put, Entry.at?_put_self]

theorem isDirectoryAt_iff (tree : FileTree) (place : Place) :
    tree.isDirectoryAt place = true ↔ tree.kind? place = some .directory := by
  rw [isDirectoryAt, kind?]
  cases tree.entry? place with
  | none => exact iff_of_false Bool.false_ne_true (Option.some_ne_none _).symm
  | some entry => cases entry <;> simp [Entry.isDirectory, Entry.kind]

theorem linkAt?_eq_some_iff (tree : FileTree) (place : Place) (target : Text) :
    tree.linkAt? place = some target ↔ tree.kind? place = some (.link target) := by
  rw [linkAt?, kind?]
  cases tree.entry? place with
  | none => simp
  | some entry => cases entry <;> simp [Entry.kind]

theorem linkAt?_eq_none_iff (tree : FileTree) (place : Place) :
    tree.linkAt? place = none ↔ ∀ target, tree.kind? place ≠ some (.link target) := by
  rw [Option.eq_none_iff_forall_ne_some]
  exact forall_congr' fun target => not_congr (linkAt?_eq_some_iff tree place target)

-- A file is known by its kind.
theorem entry?_eq_file (tree : FileTree) (place : Place) (content : Bytes) (executable : Bool)
    (h : tree.kind? place = some (.file content executable)) :
    tree.entry? place = some (.file content executable) := by
  rcases Option.map_eq_some_iff.mp h with ⟨entry, hentry, hkind⟩
  rw [hentry]
  cases entry with
  | file bytes runs =>
      rw [Entry.Kind.file.inj hkind |>.1, Entry.Kind.file.inj hkind |>.2]
  | link target => exact absurd hkind (by simp only [Entry.kind, reduceCtorEq, not_false_eq_true])
  | directory entries =>
      exact absurd hkind (by simp only [Entry.kind, reduceCtorEq, not_false_eq_true])

end FileTree

end QueryDesk
