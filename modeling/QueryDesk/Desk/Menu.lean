import QueryDesk.Query.Mode

/-!
# Menus

What the menus of the window offer: a menu about files, and one with a command
for each question and one for the scope.

## Main definitions

* `MenuCommand`: The commands.
* `MenuCommand.text`: How a command is written in its menu.
* `Menu`: A title and commands, with `none` for a line between two groups.
* `Menu.all`: The menus of the window.
* `MenuCommand.ofText?`: The command that is written so.
-/

namespace QueryDesk

/-- What can be chosen in a menu. -/
inductive MenuCommand
  | openFile
  | save
  | quit
  | query (mode : Mode)
  | setScope
  deriving DecidableEq, Repr

/-- How a command is written in its menu. -/
def MenuCommand.text : MenuCommand → Text
  | .openFile => "&Open..."
  | .save => "&Save"
  | .quit => "&Quit"
  | .query mode => mode.label
  | .setScope => "Set &Scope..."

/-- A title and commands, with `none` for a line between two groups. -/
structure Menu where
  title : Text
  items : List (Option MenuCommand)
  deriving DecidableEq, Repr

namespace Menu

/-- The menu about files. -/
def files : Menu :=
  ⟨"&File", [some .openFile, some .save, none, some .quit]⟩

/-- The menu about queries. -/
def queries : Menu :=
  ⟨"&Oracle", Mode.all.map (fun mode => some (.query mode)) ++ [none, some .setScope]⟩

/-- The menus of the window. -/
def all : List Menu := [files, queries]

end Menu

/-- The command that is written so in a menu. -/
def MenuCommand.ofText? (text : Text) : Option MenuCommand :=
  (Menu.all.flatMap (·.items)).reduceOption.find? fun command => command.text == text

end QueryDesk
