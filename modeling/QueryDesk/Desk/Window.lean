import QueryDesk.Desk.Menu
import QueryDesk.Desk.Tabs
import QueryDesk.Desk.Workbench

/-!
# The window

The window joins the workbench to a row of editors, to the settings, to a status
bar and to a debug log. What the workbench tells is acted on at once: a status
goes to the status bar, lines go to the debug log, and a place to go to is
opened in an editor.

The debug log also takes every new text of the status bar, unless the same text
went into it less than three quarters of a second ago.

An editor with changes that are not on disk loses its tab only when the user
agrees.

## Main definitions

* `Window`: The whole desk.
* `Window.fresh`: A desk with its settings read.
* `Window.openFile`, `Window.openValue`: A file shown in its tab.
* `Window.goTo`, `Window.goToValues`: A place shown in the tab of its file.
* `Window.save`: The current editor's text written.
* `Window.closeTab`: A tab removed.
* `Window.command`: What a menu command does.
* `Window.close`: The end of the desk.
-/

namespace QueryDesk

namespace Failure

/-- The failure is a refusal of the file tree or of the system, which the user is told
    about. -/
def isRefusedFile : Failure → Bool
  | .file (.refused _ _ _) | .stopped _ => true
  | _ => false

end Failure

/-- The whole desk. -/
structure Window where
  bench : Workbench
  settings : Settings
  tabs : Tabs
  log : Buffer
  /-- The dock with the output panel is not shown. -/
  outputHidden : Bool
  /-- The dock with the debug log is not shown. -/
  logHidden : Bool
  /-- The text of the status bar. -/
  message : Text
  /-- The last text of the status bar that went into the debug log. -/
  logged : Text
  /-- When it did. -/
  loggedAt : Binary64
  /-- The time in seconds. It is a rounded number, so what is said about short
      spans of time holds up to rounding. -/
  clock : Binary64

namespace Window

/-- The name of the program. -/
def title : Text := "PyOracle"

/-- How many seconds the same text of the status bar is not logged again. -/
def quietTime : Binary64 := .ofRatio false 3 4

/-- The host the desk runs on. -/
def host (window : Window) : Host :=
  window.bench.host

/-- The user of the desk. -/
def user (window : Window) : User :=
  window.bench.user

/-- The window on another state of the host. -/
def withHost (window : Window) (host : Host) : Window :=
  { window with bench := { window.bench with host } }

/-- The window after something was put before the user. -/
def withUser (window : Window) (user : User) : Window :=
  { window with bench := { window.bench with user } }

/-- The window after something was shown that asks for no answer. -/
def see (window : Window) (display : Display) : Window :=
  window.withUser (window.user.see display)

/-- The working directory. -/
def workDir (window : Window) : Text :=
  Path.ofPlace window.host.workDir

/-! ## The debug log and the status bar -/

/-- Lines put at the end of the debug log, which is brought to the front when
    they matter. -/
def appendLog (window : Window) (lines : List Text) (reveal : Bool) : Window :=
  let window := { window with log := lines.foldl Buffer.append window.log }
  if reveal then { window.see (.raised .log) with logHidden := false } else window

/-- A text of the status bar put into the debug log, unless it is blank or was
    logged a moment ago. -/
def logMessage (window : Window) (text : Text) : Window :=
  let text := Text.trim text
  if text.isEmpty then window
  else if text = window.logged ∧ (window.clock.sub window.loggedAt).below quietTime then window
  else
    { window with logged := text, loggedAt := window.clock }.appendLog
      ["[Status] " ++ text] false

/-- The window with another text in the status bar. -/
def setMessage (window : Window) (text : Text) : Window :=
  if text = window.message then window else { window with message := text }.logMessage text

/-- A text shown in the status bar. -/
def showMessage (window : Window) (text : Text) (duration : Int) : Outcome Window Unit :=
  .tell (window.setMessage text) [.status text duration] ()

/-- The window with the output panel's dock brought to the front. -/
def raiseOutput (window : Window) : Window :=
  { window.see (.raised .output) with outputHidden := false }

/-- The dock with the output panel brought to the front, and given a height when
    there is one to give. -/
def reveal (window : Window) (height : Int) : Outcome Window Unit :=
  .tell window.raiseOutput (if 0 < height then [.resized .output height] else []) ()

/-- The dock with the output panel brought to the front, and given a height that
    may be a value of any kind. A height with a fraction is a height to give also
    when nothing is left of it without the fraction. -/
def revealValue (window : Window) (height : Json) : Outcome Window Unit :=
  let window := window.raiseOutput
  match height.positive? with
  | none => .fail window (.notInt .noNumber)
  | some false => .pure window ()
  | some true =>
      match height.asInt with
      | .error failure => .fail window failure
      | .ok height => .tell window [.resized .output height] ()

/-! ## Editors -/

/-- A file shown in its tab, and the number of the tab. A file that is open
    already is looked for by its real path. -/
def openFile (window : Window) (path : Text) : Outcome Window (Option Nat) :=
  match window.host.realPath path with
  | .error failure => .fail window failure
  | .ok real =>
      match window.tabs.indexOf? real with
      | some index => .pure { window with tabs := window.tabs.select index } (some index)
      | none =>
          match Editor.empty.load window.host path with
          | (_, .error failure) =>
              if failure.isRefusedFile then
                .pure (window.see
                  (.warning "Open File" ("Could not open file:\n" ++ failure.message))) none
              else .fail window failure
          | (editor, .ok path) =>
              -- The new tab goes to the end of the row.
              let index := window.tabs.all.length
              let window := { window with tabs := window.tabs.addCurrent ⟨editor, path⟩ }
              let (settings, stored) :=
                SettingsStore.set window.settings Settings.lastOpenDir (.str (Path.dirName path))
              let window := { window with settings }
              match stored with
              | .error failure => .fail window failure
              | .ok _ => .pure window (some index)

/-- A file given by a value of any kind shown in its tab. -/
def openValue (window : Window) (path : Json) : Outcome Window (Option Nat) :=
  match path.asText with
  | .ok path => window.openFile path
  | .error failure => .fail window failure

/-- A file shown in its tab, and then a failure. A file that is not there to be
    shown is no more than that. -/
def openButFail (window : Window) (path : Text) (failure : Failure) : Outcome Window Unit :=
  (window.openFile path).andThen fun window index =>
    if index.isNone then .pure window () else .fail window failure

/-- A place shown in the tab of its file. -/
def goTo (window : Window) (path : Text) (line column : Int) : Outcome Window Unit :=
  (window.openFile path).andThen fun window index =>
    match index.bind fun index => window.tabs.all[index]? with
    | none => .pure window ()
    | some tab =>
        .tell { window with tabs := window.tabs.setEditor (tab.editor.goTo line column) }
          [.focused .editor] ()

/-- A place given by values of any kind shown in the tab of its file. The line and
    the column are taken as integers only when the file is open. -/
def goToValues (window : Window) (path line column : Json) : Outcome Window Unit :=
  match path.asText, line.asInt, column.asInt with
  | .error failure, _, _ => .fail window failure
  | .ok path, .ok line, .ok column => window.goTo path line column
  | .ok path, .error failure, _ => window.openButFail path failure
  | .ok path, _, .error failure => window.openButFail path failure

/-- The dialog that looks for a file to open, and the file it gives. -/
def openDialog (window : Window) : Outcome Window Unit :=
  match SettingsStore.get window.settings Settings.lastOpenDir (.str []) with
  | .error failure => .fail window failure
  | .ok directory =>
      let (answer, user) := window.user.ask
        (.openFile "Open File" (directory.word.orElse window.workDir)
          "Go files (*.go);;All files (*)")
      let window := window.withUser user
      if answer.truthy then (window.openValue answer).void else .pure window ()

/-- The file that the current editor's text is written to: its own or else one
    that the user gives, empty when the user cancels. -/
def saveTarget (window : Window) (editor : Editor) : Text × Window :=
  if editor.pathText.isEmpty then
    let (answer, user) := window.user.ask (.saveFile "Save File" window.workDir)
    (answer.word, window.withUser user)
  else (editor.pathText, window)

/-- The current editor's text written. -/
def save (window : Window) : Outcome Window Unit :=
  match window.tabs.editor? with
  | none => .pure window ()
  | some editor =>
      let (target, window) := window.saveTarget editor
      if target.isEmpty then .pure window ()
      else
        match editor.save window.host target with
        | (host, _, .error failure) =>
            let window := window.withHost host
            if failure.isRefusedFile then
              .pure (window.see
                (.warning "Save File" ("Could not save file:\n" ++ failure.message))) ()
            else .fail window failure
        | (host, editor, .ok saved) =>
            let window := { window.withHost host with tabs := window.tabs.setEditor editor }
            window.showMessage ("Saved " ++ saved.path) 1500

/-- A tab removed, which needs the user's consent when there are changes in it
    that are not on disk. -/
def closeTab (window : Window) (index : Int) : Window :=
  match window.tabs.get? index with
  | none => window
  | some tab =>
      if tab.editor.buffer.modified then
        let (agreed, user) := window.user.confirms "Close File"
          ("Discard unsaved changes to " ++ tab.editor.name ++ "?")
        let window := window.withUser user
        if agreed then { window with tabs := window.tabs.remove index } else window
      else { window with tabs := window.tabs.remove index }

/-- A new tab with an editor that belongs to no file. -/
def newTab (window : Window) : Window :=
  { window with tabs := window.tabs.addCurrent ⟨.empty, []⟩ }

/-- The current editor changed in some way. -/
def edit (window : Window) (change : Editor → Editor) : Window :=
  match window.tabs.editor? with
  | none => window
  | some editor => { window with tabs := window.tabs.setEditor (change editor) }

/-! ## The workbench -/

/-- What one notice of the workbench leads to. -/
def act (window : Window) : Notice → Outcome Window Unit
  | .status text duration => window.showMessage text duration
  | .debug lines => .pure (window.appendLog lines false) ()
  | .navigate path line column => window.goTo path line column
  | .finished _ => .pure window ()
  | .reveal height => window.reveal height
  | notice => .tell window [notice] ()

/-- What the notices of the workbench lead to, one after the other. -/
def actAll (window : Window) : List Notice → Outcome Window Unit
  | [] => .pure window ()
  | notice :: notices => (window.act notice).andThen fun window _ => actAll window notices

/-- An operation of the workbench, with its notices acted on. -/
def through {α : Type} (window : Window) (outcome : Outcome Workbench α) : Outcome Window α :=
  (actAll { window with bench := outcome.state } outcome.notices).andThen fun window _ =>
    ⟨window, [], outcome.result⟩

/-- A query about the current editor. -/
def query (window : Window) (mode : Text) : Outcome Window Bool :=
  window.through (window.bench.run mode (window.tabs.editor?.map Editor.target))

/-- The scope asked for. -/
def setScope (window : Window) : Outcome Window (Option Text) :=
  window.through window.bench.setScope

/-- All queries run that wait. -/
def work (window : Window) : Window :=
  { window with bench := window.bench.workAll }

/-- The results of queries collected. -/
def drain (window : Window) : Outcome Window Unit :=
  window.through window.bench.drain

/-- A gesture on the output panel. -/
def react (window : Window) (gesture : Gesture) : Outcome Window Unit :=
  window.through (window.bench.react gesture)

/-! ## The whole window -/

/-- A desk with its settings read and taken over. What is wrong with the settings
    file is said in the debug log. -/
def fresh (host : Host) (user : User) (settings : Settings) : Outcome Window Unit :=
  let (settings, loaded) := settings.load host
  let window : Window := {
    bench := .fresh host user .fresh
    settings
    tabs := .none
    log := .empty
    outputHidden := true
    logHidden := true
    message := []
    logged := []
    loggedAt := .ofRatio false 0 1
    clock := .ofRatio false 0 1 }
  match loaded with
  | .error failure => .fail window failure
  | .ok () =>
      let problem := Settings.loadMessage settings
      let window :=
        if problem.isEmpty then window
        else
          window.appendLog
            ["[Settings][" ++ settings.path.name ++ "] Load error: " ++ problem] true
      window.through (window.bench.configure (Settings.config settings))

/-- The end of the desk: no more queries, and changed settings written. Settings
    that cannot be written are given up. -/
def close (window : Window) : Outcome Window Unit :=
  let window := { window with bench := window.bench.shutdown }
  match Settings.save window.settings window.host true with
  | (settings, host, result) =>
      let window := { window.withHost host with settings }
      match result with
      | .ok _ => .pure window ()
      | .error (.unwritable _) => .pure window ()
      | .error failure => .fail window failure

/-- What a menu command does. -/
def command (window : Window) : MenuCommand → Outcome Window Unit
  | .openFile => window.openDialog
  | .save => window.save
  | .quit => window.close
  | .query mode => (window.query mode.name).void
  | .setScope => window.setScope.void

/-- The window some seconds later. -/
def tick (window : Window) (seconds : Binary64) : Window :=
  { window with clock := window.clock.add seconds }

/-- The window later by milliseconds that may be a value of any kind. -/
def tickValue (window : Window) (milliseconds : Json) : Outcome Window Unit :=
  match milliseconds.thousandth with
  | .ok seconds => .pure (window.tick seconds) ()
  | .error failure => .fail window failure

end Window

end QueryDesk
