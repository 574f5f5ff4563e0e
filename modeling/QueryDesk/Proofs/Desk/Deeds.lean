import QueryDesk.Desk.Startup
import QueryDesk.Proofs.Desk.Steps

/-!
# What can happen to a window

Everything that happens to a window is one of a few deeds: a menu command, a file
or a place that is opened, a gesture on the panel, and so on. Only two of them
write files, saving and quitting. Queries that are run leave the disk as it is, and
the rest of what the workbench does never touches the host. What is only shown or
logged changes nothing else of the window.

## Main definitions

* `Deed`: What can happen to a window.
* `Window.after`, `Window.run`: A window after a deed, and after several.
* `Window.Opens`: A deed that shows a file in a new tab.
* `Host.SameDisk`: The files and the working directory are the same.
* `Window.Quiet`: Nothing is changed but what is shown and logged.

## Theorems

* `Workbench.work_sameDisk`: Queries that are run leave the disk as it is.
* `Workbench.collect_state`, `Workbench.askScope_state`: What collecting and asking for a scope
  can change.
* `start_state`: A start is what happens to a window that was made.
-/

namespace QueryDesk

/-- What can happen to a window. -/
inductive Deed
  /-- The files among the names a start was given are opened. -/
  | arguments (names : List Text)
  | command (command : MenuCommand)
  | openFile (path : Json)
  | goTo (path line column : Json)
  | gesture (gesture : Gesture)
  | work
  | drain
  | tick (milliseconds : Json)
  /-- The current editor is changed in any way. -/
  | edit (change : Editor → Editor)
  | newTab
  | select (index : Int)
  | closeTab (index : Int)
  | message (text : Text) (duration : Int)
  | reveal (height : Json)
  | log (lines : List Text) (raised : Bool)

namespace Window

/-- The window after a deed. -/
def after (window : Window) : Deed → Window
  | .arguments names =>
      match window.host.existingFiles names with
      | .error _ => window
      | .ok paths => (window.openFiles paths).state
  | .command command => (window.command command).state
  | .openFile path => (window.openValue path).state
  | .goTo path line column => (window.goToValues path line column).state
  | .gesture gesture => (window.react gesture).state
  | .work => window.work
  | .drain => window.drain.state
  | .tick milliseconds => (window.tickValue milliseconds).state
  | .edit change => window.edit change
  | .newTab => window.newTab
  | .select index => { window with tabs := window.tabs.select index }
  | .closeTab index => window.closeTab index
  | .message text duration => (window.showMessage text duration).state
  | .reveal height => (window.revealValue height).state
  | .log lines raised => window.appendLog lines raised

/-- The window after several deeds. -/
def run (window : Window) (deeds : List Deed) : Window :=
  deeds.foldl after window

/-- The deed shows a file in a tab of its own. -/
def Opens (window : Window) (deed : Deed) : Prop :=
  deed ≠ .newTab ∧ window.tabs.all.length < (window.after deed).tabs.all.length

/-- A start makes a window, and then opens the files of its arguments. -/
theorem start_state (host : Host) (user : User) (settings : Settings) (arguments : Arguments)
    (h : (fresh host user settings).result = .ok ()) :
    (start host user settings arguments).state
      = (fresh host user settings).state.after (.arguments arguments.files) := by
  simp only [start, Outcome.andThen, h, after]
  cases (fresh host user settings).state.host.existingFiles arguments.files with
  | error _ => rfl
  | ok _ => rfl

end Window

/-! ## The disk -/

/-- The files are the same, and so are the directory that relative paths begin in and what the
    system refuses. -/
structure Host.SameDisk (host after : Host) : Prop where
  files : after.files = host.files
  workDir : after.workDir = host.workDir
  refusals : after.refusals = host.refusals

namespace Host

variable {host : Host}

theorem SameDisk.refl (host : Host) : host.SameDisk host :=
  ⟨rfl, rfl, rfl⟩

theorem SameDisk.trans {first second third : Host} (h : first.SameDisk second)
    (h' : second.SameDisk third) : first.SameDisk third :=
  ⟨h'.files.trans h.files, h'.workDir.trans h.workDir, h'.refusals.trans h.refusals⟩

end Host

theorem Invoker.execute_sameDisk (invoker : Invoker) (host : Host) (invocation : Invocation) :
    host.SameDisk (invoker.execute host invocation).2.2 := by
  rcases invoker.execute_launches host invocation with ⟨launches, outcomes, hlaunches⟩
  rw [hlaunches]
  exact ⟨rfl, rfl, rfl⟩

/-! ## The workbench -/

namespace Workbench

/-- Queries that are run leave the disk as it is. -/
theorem work_sameDisk (bench : Workbench) (count : Nat) :
    bench.host.SameDisk (bench.work count).host := by
  induction count generalizing bench with
  | zero => exact .refl bench.host
  | succ count ih =>
      unfold work
      split
      · exact .refl bench.host
      · next number invocation waiting _ =>
          have hfirst := bench.invoker.execute_sameDisk bench.host invocation
          rcases hlaunch : bench.invoker.execute bench.host invocation with ⟨result, invoker, host⟩
          rw [hlaunch] at hfirst
          exact hfirst.trans (ih { bench with
            invoker, host, waiting
            results := bench.results ++ [(number, result)] })

theorem conclude_state (bench : Workbench) (result : Except Failure RunResult) :
    ∃ user panel, (bench.conclude result).state = { bench with user, panel } := by
  unfold conclude
  split
  · unfold report
    split
    · exact ⟨_, bench.panel, rfl⟩
    · exact ⟨bench.user, bench.panel, rfl⟩
  · split
    · exact ⟨bench.user, bench.panel, rfl⟩
    · exact ⟨bench.user, _, rfl⟩

/-- Collecting shows results to the user or in the panel, and takes them off the queue. -/
theorem collect_state (bench : Workbench) (results : List (Nat × Except Failure RunResult)) :
    ∃ user panel left,
      (bench.collect results).state = { bench with user, panel, results := left } := by
  induction results generalizing bench with
  | nil => exact ⟨bench.user, bench.panel, [], rfl⟩
  | cons entry results ih =>
      rcases entry with ⟨number, result⟩
      unfold collect
      split
      · exact ih bench
      · rcases conclude_state { bench with results } result with ⟨user, panel, hstate⟩
        unfold Outcome.andThen
        split
        · exact ⟨user, panel, results, hstate⟩
        · rcases ih (conclude { bench with results } result).state with
            ⟨lastUser, lastPanel, left, hrest⟩
          refine ⟨lastUser, lastPanel, left, hrest.trans ?_⟩
          rw [hstate]

/-- Asking for a scope shows something to the user, and may put a scope into force. -/
theorem askScope_state (current : Text) (asks : Nat) (bench : Workbench) :
    ∃ user session, (askScope current asks bench).state
      = { bench with user, invoker := { bench.invoker with session } } := by
  induction asks generalizing bench with
  | zero => exact ⟨bench.user, bench.invoker.session, rfl⟩
  | succ asks ih =>
      unfold askScope
      split
      · exact ⟨_, bench.invoker.session, rfl⟩
      · split
        · exact ⟨_, _, rfl⟩
        · rcases ih { bench with user := _ } with ⟨user, session, hrest⟩
          exact ⟨user, session, hrest⟩

-- Everything else does not touch the host at all.
theorem run_host (bench : Workbench) (mode : Text) (target : Option EditorTarget) :
    (bench.run mode target).state.host = bench.host := by
  unfold run
  cases target with
  | none => rfl
  | some target =>
      simp only
      split
      · rfl
      · rfl
      · unfold start
        simp only
        split
        · rfl
        · rfl

theorem collect_host (bench : Workbench) (results : List (Nat × Except Failure RunResult)) :
    (bench.collect results).state.host = bench.host := by
  rcases collect_state bench results with ⟨user, panel, left, hstate⟩
  rw [hstate]

theorem askScope_host (current : Text) (asks : Nat) (bench : Workbench) :
    (askScope current asks bench).state.host = bench.host := by
  rcases askScope_state current asks bench with ⟨user, session, hstate⟩
  rw [hstate]

theorem configure_host (bench : Workbench) (values : Section) :
    (bench.configure values).state.host = bench.host := by
  rcases configure_state bench values with ⟨session, panel, focusPanel, _, hstate⟩
  rw [hstate]

end Workbench

/-! ## The window -/

namespace Tabs

theorem select_all (tabs : Tabs) (index : Int) : (tabs.select index).all = tabs.all := by
  unfold select
  split
  · rfl
  · rfl

theorem addCurrent_all (tabs : Tabs) (tab : Tab) :
    (tabs.addCurrent tab).all = tabs.all ++ [tab] :=
  select_all (tabs.add tab) _

theorem setEditor_length (tabs : Tabs) (editor : Editor) :
    (tabs.setEditor editor).all.length = tabs.all.length := by
  unfold setEditor
  split
  · rfl
  · exact List.length_modify _ _ _

end Tabs

namespace Window

/-- Nothing is changed but what is shown and logged. -/
structure Quiet (window after : Window) : Prop where
  host : after.host = window.host
  tabs : after.tabs = window.tabs
  settings : after.settings = window.settings

theorem Quiet.refl (window : Window) : window.Quiet window :=
  ⟨rfl, rfl, rfl⟩

theorem see_quiet (window : Window) (display : Display) : window.Quiet (window.see display) :=
  ⟨rfl, rfl, rfl⟩

theorem appendLog_quiet (window : Window) (lines : List Text) (raised : Bool) :
    window.Quiet (window.appendLog lines raised) := by
  unfold appendLog
  simp only
  split
  · exact ⟨rfl, rfl, rfl⟩
  · exact ⟨rfl, rfl, rfl⟩

theorem showMessage_quiet (window : Window) (text : Text) (duration : Int) :
    window.Quiet (window.showMessage text duration).state := by
  have hlogged : ∀ window : Window, window.Quiet (window.logMessage text) := by
    intro window
    unfold logMessage
    simp only
    split
    · exact .refl window
    split
    · exact .refl window
    · have happended := appendLog_quiet
        { window with logged := Text.trim text, loggedAt := window.clock }
        ["[Status] " ++ Text.trim text] false
      exact ⟨happended.host, happended.tabs, happended.settings⟩
  unfold showMessage setMessage
  split
  · exact .refl window
  · have hshown := hlogged { window with message := text }
    exact ⟨hshown.host, hshown.tabs, hshown.settings⟩

theorem revealValue_quiet (window : Window) (height : Json) :
    window.Quiet (window.revealValue height).state := by
  unfold revealValue
  simp only
  split
  · exact ⟨rfl, rfl, rfl⟩
  · exact ⟨rfl, rfl, rfl⟩
  · split
    · exact ⟨rfl, rfl, rfl⟩
    · exact ⟨rfl, rfl, rfl⟩

theorem tickValue_quiet (window : Window) (milliseconds : Json) :
    window.Quiet (window.tickValue milliseconds).state := by
  unfold tickValue
  split
  · exact ⟨rfl, rfl, rfl⟩
  · exact .refl window

end Window

end QueryDesk
