import QueryDesk.Failure

/-!
# Sessions

The scope of the queries: the words that say which packages or files the tool
analyzes. Each scope that is set goes to the front of a history of limited
length. A query that needs a scope and finds none asks for one.

A prompt is what asks. It is given the scope in force and what can be recalled,
works on a state of its own, and comes back with an answer, or with none when
the question is canceled.

## Main definitions

* `Session`: The scope in force and the history.
* `Prompt`: What asks for a scope.
* `Session.setScope`: A scope put into force.
* `Session.recalled`: What a prompt offers.
* `Session.ensureScope`: The scope in force, or one that is asked for.
-/

namespace QueryDesk

/-- The scope in force and the scopes set before, the newest first. -/
structure Session where
  scope : Text
  history : List Text
  limit : Int
  deriving DecidableEq, Repr

/-- What asks for a scope, on a state of its own. It is given the scope in force
    and what can be recalled. -/
abbrev Prompt (σ : Type) := Text → List Text → σ → Option Text × σ

namespace Session

/-- The length of a history that nobody has limited. -/
def defaultLimit : Int := 32

/-- A session without a scope. -/
def fresh : Session := ⟨[], [], defaultLimit⟩

/-- The length to which the history is cut. One scope is always kept. -/
def keep (session : Session) : Nat :=
  (max 1 session.limit).toNat

/-- The session with a scope put into force and at the front of the history. -/
def commit (session : Session) (scope : Text) : Session :=
  { session with scope, history := (scope :: session.history).take session.keep }

/-- A scope put into force without the blanks around it, unless nothing is
    left. -/
def setScope (session : Session) (candidate : Text) : Except Refusal (Text × Session) :=
  let scope := Text.trim candidate
  if scope.isEmpty then .error .emptyScope else .ok (scope, session.commit scope)

/-- The values that are not empty, each at its first place only. -/
def firsts : List Text → List Text → List Text
  | _, [] => []
  | seen, value :: rest =>
      if value.isEmpty || seen.contains value then firsts seen rest
      else value :: firsts (value :: seen) rest

/-- What a prompt offers: the scope in force and the history, each value once. -/
def recalled (session : Session) : List Text :=
  firsts [] (session.scope :: session.history)

/-- The scope in force. When there is none, a prompt is asked for one, which is
    put into force. -/
def ensureScope {σ : Type} (session : Session) (prompt : Option (Prompt σ)) (state : σ) :
    Except Refusal Text × Session × σ :=
  if !session.scope.isEmpty then (.ok session.scope, session, state)
  else
    match prompt with
    | none => (.error .noScope, session, state)
    | some ask =>
        match ask session.scope session.recalled state with
        | (none, state) => (.error .noScope, session, state)
        | (some candidate, state) =>
            match session.setScope candidate with
            | .error refusal => (.error refusal, session, state)
            | .ok (scope, session) => (.ok scope, session, state)

/-- The session with another limit of the history, which is cut to it. -/
def setLimit (session : Session) (limit : Int) : Session :=
  { session with limit := max 1 limit, history := session.history.take (max 1 limit).toNat }

end Session

end QueryDesk
