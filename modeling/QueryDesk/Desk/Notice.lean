import QueryDesk.Failure
import QueryDesk.Query.Invocation

/-!
# Notices

What a part of the desk has to tell the parts around it: the text of the status
bar, lines for the debug log, a place to go to. An operation leaves a state,
gives notices in the order they were made, and has a result or a failure. The
state and the notices count also when it failed.

The parts are joined by the signals of the widget library. Of these is assumed that
each is delivered to the part it is for at once and as often as it is sent, in the
order of sending and with the values it was sent with, and that the numbers among
these have no bound.

## Main definitions

* `Notice`: What can be told.
* `Outcome`: What an operation leaves, tells and gives.
* `Outcome.andThen`: One operation after another.
-/

namespace QueryDesk

/-- The parts of the window that open and close. -/
inductive Dock
  | output
  | log
  deriving DecidableEq, Repr

/-- The parts of the window that take the keyboard. -/
inductive Widget
  | output
  | editor
  deriving DecidableEq, Repr

/-- What a part of the desk has to tell the parts around it. -/
inductive Notice
  /-- A text for the status bar, for so many milliseconds or, with zero, until
      the next one. -/
  | status (text : Text) (duration : Int)
  /-- Lines for the debug log. -/
  | debug (lines : List Text)
  /-- A place to go to. -/
  | navigate (path : Text) (line column : Int)
  /-- A query came to its end. -/
  | finished (result : RunResult)
  /-- The output panel has something to show, and would like to be so high. -/
  | reveal (height : Int)
  /-- A part of the window was given the keyboard. -/
  | focused (widget : Widget)
  /-- A dock was given a height. -/
  | resized (dock : Dock) (height : Int)
  deriving DecidableEq, Repr

/-- What an operation leaves, tells and gives. -/
structure Outcome (σ α : Type) where
  state : σ
  notices : List Notice
  result : Except Failure α

namespace Outcome

variable {σ τ α β : Type}

/-- Nothing but a result. -/
def pure (state : σ) (value : α) : Outcome σ α := ⟨state, [], .ok value⟩

/-- Nothing but a failure. -/
def fail (state : σ) (failure : Failure) : Outcome σ α := ⟨state, [], .error failure⟩

/-- Notices and a result. -/
def tell (state : σ) (notices : List Notice) (value : α) : Outcome σ α :=
  ⟨state, notices, .ok value⟩

/-- One operation after another, unless the first one failed. -/
def andThen (first : Outcome σ α) (next : σ → α → Outcome σ β) : Outcome σ β :=
  match first.result with
  | .error failure => ⟨first.state, first.notices, .error failure⟩
  | .ok value =>
      let second := next first.state value
      ⟨second.state, first.notices ++ second.notices, second.result⟩

/-- The operation without its result. -/
def void (outcome : Outcome σ α) : Outcome σ Unit :=
  ⟨outcome.state, outcome.notices, outcome.result.map fun _ => ()⟩

end Outcome

end QueryDesk
