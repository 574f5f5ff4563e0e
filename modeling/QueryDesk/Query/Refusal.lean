import QueryDesk.Text.Basic

/-!
# Refused queries

Why a query does not run. Each refusal is a cause; its wording is in one place.

## Main definitions

* `Refusal`: The causes.
* `Refusal.message`: The text shown for a cause.
-/

namespace QueryDesk

/-- Why a query does not run. -/
inductive Refusal
  /-- The text to ask about belongs to no file. -/
  | noFile (words : Text)
  /-- The file has changes that are not on disk. -/
  | unsavedChanges (path : Text)
  /-- A scope without words was given. -/
  | emptyScope
  /-- No scope is set and none was given. -/
  | noScope
  /-- There is no query of this name. -/
  | unknownMode (mode : Text)
  /-- The program could not be started. -/
  | notStarted (program reason : Text)
  /-- Another reason, in words of its own. -/
  | other (words : Text)
  deriving DecidableEq, Repr

namespace Refusal

/-- The words for a text that belongs to no file. -/
def noFileWords : Text := "Cannot use the oracle on a buffer without a file name."

/-- The text shown for a refusal. -/
def message : Refusal → Text
  | .noFile words => words
  | .unsavedChanges path => "Save " ++ path.orElse "buffer" ++ " before invoking the oracle."
  | .emptyScope => "You must specify a non-empty scope for the Go oracle."
  | .noScope => "No oracle scope set; query canceled."
  | .unknownMode mode => "Unknown oracle mode '" ++ mode ++ "'."
  | .notStarted program reason => "Could not start '" ++ program ++ "': " ++ reason
  | .other words => words

end Refusal

end QueryDesk
