import QueryDesk.Desk.Editor

/-!
# Tabs

The editors of the window stand in a row of tabs, of which one is current as
long as there are any. A tab keeps the path that its file had when it was opened
as its tooltip; its title follows the editor and marks changes that are not on
disk.

The row is a widget of the library that the buffers are from. Of it is assumed that
the first tab becomes current by itself, that the tab to the right of a current one
that is removed takes its place, or else the one to the left, that other tabs stay in
their order, and that a number without a tab does nothing.

## Main definitions

* `Tab`: An editor and its tooltip.
* `Tabs`: A row of tabs, and the current one.
* `Tabs.add`, `Tabs.remove`, `Tabs.select`: Changes to the row.
* `Tabs.indexOf?`: The tab of a file.
* `Tabs.setEditor`: Another state of the current editor.
-/

namespace QueryDesk

/-- An editor and its tooltip. -/
structure Tab where
  editor : Editor
  tip : Text
  deriving DecidableEq, Repr

/-- The title of a tab, with a star when there are changes that are not on
    disk. -/
def Tab.title (tab : Tab) : Text :=
  if tab.editor.buffer.modified then tab.editor.name ++ " *" else tab.editor.name

/-- A row of tabs, and the number of the current one. -/
structure Tabs where
  all : List Tab
  current : Option Nat
  deriving DecidableEq, Repr

namespace Tabs

/-- No tabs. -/
def none : Tabs := ⟨[], Option.none⟩

/-- The tab with a number, where a number below zero has none. -/
def get? (tabs : Tabs) (index : Int) : Option Tab :=
  if index < 0 then Option.none else tabs.all[index.toNat]?

/-- The current editor. -/
def editor? (tabs : Tabs) : Option Editor :=
  (tabs.current.bind fun index => tabs.all[index]?).map (·.editor)

/-- Another tab at the end. The first one becomes current. -/
def add (tabs : Tabs) (tab : Tab) : Tabs :=
  ⟨tabs.all ++ [tab], some (tabs.current.getD 0)⟩

/-- Another current tab. A number without a tab is ignored. -/
def select (tabs : Tabs) (index : Int) : Tabs :=
  if (tabs.get? index).isSome then { tabs with current := some index.toNat } else tabs

/-- Another tab at the end that becomes current. -/
def addCurrent (tabs : Tabs) (tab : Tab) : Tabs :=
  (tabs.add tab).select tabs.all.length

/-- The current tab among `count` tabs after one before, at or after it was
    removed. Its right neighbour takes its place, or else its left one. -/
def currentWithout (current removed count : Nat) : Option Nat :=
  if removed < current then some (current - 1)
  else if current < count then some current
  else if 0 < count then some (count - 1)
  else Option.none

/-- The row without a tab. A number without a tab is ignored. -/
def remove (tabs : Tabs) (index : Int) : Tabs :=
  if (tabs.get? index).isNone then tabs
  else
    let all := tabs.all.eraseIdx index.toNat
    ⟨all, tabs.current.bind fun current => currentWithout current index.toNat all.length⟩

/-- The number of the first tab whose editor has a path. -/
def indexOf? (tabs : Tabs) (path : Text) : Option Nat :=
  tabs.all.findIdx? fun tab => tab.editor.path == some path

/-- Another state of the current editor. -/
def setEditor (tabs : Tabs) (editor : Editor) : Tabs :=
  match tabs.current with
  | Option.none => tabs
  | some index => { tabs with all := tabs.all.modify index fun tab => { tab with editor } }

end Tabs

end QueryDesk
