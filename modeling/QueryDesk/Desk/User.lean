import QueryDesk.Desk.Notice
import QueryDesk.Query.Session

/-!
# The user

What is put before the user, and what the user answers. A question takes the
next of the answers to come; when none is left, the user cancels. What was shown
is kept in its order.

The scope of queries can be asked for in two ways. The dialog does not take a
blank answer: it warns and asks again, until there are words or the user
cancels. The plain question takes whatever is answered.

## Main definitions

* `Display`: What can be put before the user.
* `User`: The answers to come, and what was shown.
* `User.ask`: A question, and its answer.
* `User.chooseScope`: The dialog that asks for a scope.
* `ScopeAsker`: The two ways to ask for a scope.
-/

namespace QueryDesk

/-- What can be put before the user. -/
inductive Display
  /-- A text to take notice of. -/
  | warning (title text : Text)
  /-- A question to answer with yes or no. -/
  | question (title text : Text)
  /-- A list to choose from, with the first item chosen already. Another text
      can be typed. -/
  | choice (title label : Text) (items : List Text)
  /-- The dialog that looks for a file to open. -/
  | openFile (title directory kinds : Text)
  /-- The dialog that looks for a file to write to. -/
  | saveFile (title directory : Text)
  /-- The plain question for a scope. -/
  | prompt (current : Text) (history : List Text)
  /-- A dock brought to the front. -/
  | raised (dock : Dock)
  deriving DecidableEq, Repr

/-- The answers to come, where null cancels, and what was shown. Most questions
    take an answer as a word. -/
structure User where
  answers : List Json
  shown : List Display
  deriving Repr

namespace User

/-- Something shown that asks for no answer. -/
def see (user : User) (display : Display) : User :=
  { user with shown := user.shown ++ [display] }

/-- A question, and its answer, null when the user cancels. -/
def ask (user : User) (display : Display) : Json × User :=
  (user.answers.headD .null, { (user.see display) with answers := user.answers.tail })

/-- Whether a question is answered with yes. -/
def confirms (user : User) (title text : Text) : Bool × User :=
  let (answer, user) := user.ask (.question title text)
  (answer.isText "Yes", user)

/-- The title of the dialog that asks for a scope. -/
def scopeTitle : Text := "Go Oracle Scope"

/-- What the dialog that asks for a scope asks for. -/
def scopeLabel : Text := "Packages, files or main package to analyze:"

/-- The warning against a blank scope. -/
def blankScope : Display := .warning scopeTitle Refusal.emptyScope.message

/-- The answer to the dialog that asks for a scope, from the answers to come and
    what was shown so far. After a blank answer it warns and asks again. -/
def answerScope (items : List Text) : List Json → List Display → Option Text × User
  | [], shown => (none, ⟨[], shown ++ [.choice scopeTitle scopeLabel items]⟩)
  | answer :: answers, shown =>
      match answer.word? with
      | none => (none, ⟨answers, shown ++ [.choice scopeTitle scopeLabel items]⟩)
      | some answer =>
          if (Text.trim answer).isEmpty then
            answerScope items answers
              (shown ++ [.choice scopeTitle scopeLabel items, blankScope])
          else (some answer, ⟨answers, shown ++ [.choice scopeTitle scopeLabel items]⟩)

/-- The scopes to choose from: the current one first, unless it is empty or
    among the others. -/
def scopeItems (current : Text) (history : List Text) : List Text :=
  if current.isEmpty || history.contains current then history else current :: history

/-- The dialog that asks for a scope. -/
def chooseScope (current : Text) (history : List Text) (user : User) : Option Text × User :=
  answerScope (scopeItems current history) user.answers user.shown

end User

/-- The two ways to ask for a scope. -/
inductive ScopeAsker
  | dialog
  | plain
  deriving DecidableEq, Repr

/-- The prompt of a way to ask for a scope. -/
def ScopeAsker.prompt : ScopeAsker → Prompt User
  | .dialog => User.chooseScope
  | .plain => fun current history user =>
      let (answer, user) := user.ask (.prompt current history)
      (answer.word?, user)

end QueryDesk
