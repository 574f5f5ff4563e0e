import QueryDesk.Text.Basic

/-!
# Tables

A table maps texts to values and keeps the order in which its keys were first
put. Environments, settings sections and the fields of an object are tables.

## Main definitions

* `Table.get?`: The value under a key.
* `Table.put`: The table with a value under a key, in the key's old place if it
  had one and at the end otherwise.
* `Table.update`: A table with all entries of another put into it.
-/

namespace QueryDesk

/-- Values under texts, in the order the keys were first put. -/
abbrev Table (α : Type) := List (Text × α)

namespace Table

variable {α : Type}

/-- The value under a key. -/
def get? (key : Text) : Table α → Option α
  | [] => none
  | (k, v) :: rest => if k = key then some v else get? key rest

/-- The table has a value under the key. -/
def has (key : Text) (table : Table α) : Bool :=
  (get? key table).isSome

/-- The table with a value under a key. -/
def put (key : Text) (value : α) : Table α → Table α
  | [] => [(key, value)]
  | (k, v) :: rest => if k = key then (k, value) :: rest else (k, v) :: put key value rest

/-- The table without the entry of a key. -/
def erase (key : Text) (table : Table α) : Table α :=
  table.filter (·.1 ≠ key)

/-- The table with all entries of another put into it, in their order. -/
def update (table other : Table α) : Table α :=
  other.foldl (fun acc entry => put entry.1 entry.2 acc) table

/-- The table that putting the entries one after the other makes, so that of two
    entries with one key the later one counts. -/
def ofEntries (entries : List (Text × α)) : Table α :=
  update [] entries

end Table

end QueryDesk
