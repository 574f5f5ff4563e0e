import QueryDesk.Proofs.Query.Executed
import QueryDesk.Proofs.Query.Prepared

/-!
# What can be asked of an invoker

Everything that is done with an invoker is one of a few requests, and they come in
any order. Between them the files can change, and so can the outcomes that the
launches to come will have. The prompts of all requests share a state, so that one
can answer by what another was told.

A request puts a scope into force when it brings one along, or when it needs one,
the session has none, and the prompt gives one. No other request changes a session
but the one that limits its history.

## Main definitions

* `Request`: What can be asked.
* `Reply`: What comes back.
* `Usage`: An invoker with what it works on.
* `Usage.perform`, `Usage.after`, `Usage.follow`: One request, what it leaves, and
  what several leave.
* `Usage.commits`: The scope that a request puts into force.
* `Usage.committed`: The scopes that several put into force, the newest first.

## Theorems

* `session_after`: What a request does to the session.
* `host_after`: What a request does to the host.
* `environment_after`, `environment_follow`: No request changes the environment.
-/

namespace QueryDesk

/-- What can be asked of an invoker. The last one stands for what happens around
    it: other files, and other outcomes of the launches to come. -/
inductive Request (σ : Type)
  | setScope (candidate : Text)
  | ensureScope (prompt : Option (Prompt σ))
  | setLimit (limit : Int)
  /-- The scopes that a prompt would be offered. -/
  | offer
  | prepare (mode : Text) (target : EditorTarget) (prompt : Option (Prompt σ))
  | execute (invocation : Invocation)
  | run (mode : Text) (target : EditorTarget) (prompt : Option (Prompt σ))
  | toolchain
  | configure (command : Option Text) (source : Option ToolchainSource)
  | meanwhile (files : FileTree) (outcomes : List LaunchOutcome)

/-- What comes back from an invoker. -/
inductive Reply
  | done
  | scope (scope : Text)
  | scopes (scopes : List Text)
  | prepared (invocation : Invocation)
  | finished (result : RunResult)
  | equipped (toolchain : Toolchain)

/-- An invoker with the host it works on and the state that prompts share. -/
structure Usage (σ : Type) where
  invoker : Invoker
  host : Host
  state : σ

/-- Launching a query after it was put together does not touch the session. -/
theorem Invoker.run_session {σ : Type} (invoker : Invoker) (host : Host) {mode : Text}
    {target : EditorTarget} {prompt : Option (Prompt σ)} {state : σ} :
    (invoker.run host mode target prompt state).2.1.session
      = (invoker.prepare host mode target prompt state).2.1.session := by
  rcases hprepare : invoker.prepare host mode target prompt state with
    ⟨failure | invocation, preparing, after⟩
  · rw [run_failed invoker host hprepare]
  · rw [run_prepared invoker host hprepare]
    exact preparing.execute_session host invocation

/-- A run does nothing to the host but to launch programs. -/
theorem Invoker.run_launches {σ : Type} (invoker : Invoker) (host : Host) (mode : Text)
    (target : EditorTarget) (prompt : Option (Prompt σ)) (state : σ) :
    ∃ launches, host.Launches (invoker.run host mode target prompt state).2.2.1 launches := by
  rcases hprepare : invoker.prepare host mode target prompt state with
    ⟨failure | invocation, preparing, after⟩
  · rw [run_failed invoker host hprepare]
    exact ⟨[], .refl host⟩
  · rw [run_prepared invoker host hprepare]
    exact preparing.execute_launches host invocation

namespace Usage

variable {σ : Type} (usage : Usage σ)

/-- The session of the invoker. -/
def session : Session :=
  usage.invoker.session

/-- The usage with another session. -/
def withSession (session : Session) : Usage σ :=
  { usage with invoker := { usage.invoker with session } }

/-- What comes back from a request, and what it leaves. -/
def perform (request : Request σ) (answers : Answers := ToolchainSource.get) :
    Except Failure Reply × Usage σ :=
  match request with
  | .setScope candidate =>
      match usage.session.setScope candidate with
      | .error refusal => (.error (.query refusal), usage)
      | .ok (scope, session) => (.ok (.scope scope), usage.withSession session)
  | .ensureScope prompt =>
      match usage.session.ensureScope prompt usage.state with
      | (.error refusal, session, state) =>
          (.error (.query refusal), { usage.withSession session with state })
      | (.ok scope, session, state) =>
          (.ok (.scope scope), { usage.withSession session with state })
  | .setLimit limit => (.ok .done, usage.withSession (usage.session.setLimit limit))
  | .offer => (.ok (.scopes usage.session.recalled), usage)
  | .prepare mode target prompt =>
      let (result, invoker, state) :=
        usage.invoker.prepare usage.host mode target prompt usage.state
      (result.map .prepared, { usage with invoker, state })
  | .execute invocation =>
      let (result, invoker, host) := usage.invoker.execute usage.host invocation answers
      (result.map .finished, { usage with invoker, host })
  | .run mode target prompt =>
      let (result, invoker, host, state) :=
        usage.invoker.run usage.host mode target prompt usage.state answers
      (result.map .finished, { invoker, host, state })
  | .toolchain =>
      let (invoker, host, result) := usage.invoker.toolchain usage.host answers
      (result.map .equipped, { usage with invoker, host })
  | .configure command source =>
      (.ok .done, { usage with invoker := usage.invoker.configure command source })
  | .meanwhile files outcomes =>
      (.ok .done, { usage with host := { usage.host with files, outcomes } })

/-- What a request leaves. -/
def after (request : Request σ) (answers : Answers := ToolchainSource.get) : Usage σ :=
  (usage.perform request answers).2

/-- What several requests leave. -/
def follow (requests : List (Request σ)) (answers : Answers := ToolchainSource.get) : Usage σ :=
  requests.foldl (fun usage request => usage.after request answers) usage

/-! ## Scopes that are put into force -/

/-- The scope that a request puts into force. -/
def commits : Request σ → Option Text
  | .setScope candidate => Text.worded candidate
  | .ensureScope prompt => usage.session.given prompt usage.state
  | .prepare mode target prompt | .run mode target prompt =>
      if Invoker.Proper mode target then usage.session.given prompt usage.state else none
  | _ => none

/-- The scopes that several requests put into force, the newest first. -/
def committed (usage : Usage σ) : List (Request σ) → List Text
  | [] => []
  | request :: requests =>
      (usage.after request).committed requests ++ (usage.commits request).toList

theorem commits_worded {request : Request σ} {scope : Text}
    (h : usage.commits request = some scope) : Text.trim scope = scope ∧ scope ≠ [] := by
  unfold commits at h
  split at h
  · exact Text.trim_worded h
  · exact usage.session.given_worded h
  · split at h
    · exact usage.session.given_worded h
    · exact absurd h (by simp only [reduceCtorEq, not_false_eq_true])
  · split at h
    · exact usage.session.given_worded h
    · exact absurd h (by simp only [reduceCtorEq, not_false_eq_true])
  · exact absurd h (by simp only [reduceCtorEq, not_false_eq_true])

-- Whatever becomes of a query after it was checked, the session keeps the scope that was given.
theorem prepare_session (mode : Text) (target : EditorTarget) (prompt : Option (Prompt σ)) :
    (usage.invoker.prepare usage.host mode target prompt usage.state).2.1.session
      = ((usage.commits (.prepare mode target prompt)).map usage.session.commit).getD
        usage.session := by
  rw [Invoker.prepare_invoker]
  by_cases hproper : Invoker.Proper mode target
  · simp only [commits, if_pos hproper]
    exact (usage.session.ensureScope_session prompt usage.state).1
  · simp only [commits, if_neg hproper, Option.map_none, Option.getD_none]
    rfl

/-- A request that does not limit the history commits the scope that it puts into
    force, and does nothing else to the session. -/
theorem session_after (request : Request σ) (hlimit : ∀ limit, request ≠ .setLimit limit) :
    (usage.after request).session
      = ((usage.commits request).map usage.session.commit).getD usage.session := by
  cases request with
  | setScope candidate =>
      unfold after perform
      by_cases hblank : Text.trim candidate = []
      · simp only [usage.session.setScope_blank hblank, commits, Text.worded, if_pos hblank]
        rfl
      · simp only [usage.session.setScope_given hblank, commits, Text.worded, if_neg hblank]
        rfl
  | ensureScope prompt =>
      have hensured := (usage.session.ensureScope_session prompt usage.state).1
      unfold after perform
      rcases hensure : usage.session.ensureScope prompt usage.state with
        ⟨refusal | scope, session, state⟩
      all_goals
        rw [hensure] at hensured
        simp only [hensure]
        exact hensured
  | setLimit limit => exact absurd rfl (hlimit limit)
  | prepare mode target prompt => exact usage.prepare_session mode target prompt
  | run mode target prompt =>
      exact (usage.invoker.run_session usage.host).trans (usage.prepare_session mode target prompt)
  | execute invocation => exact usage.invoker.execute_session usage.host invocation
  | toolchain => exact usage.invoker.toolchain_session usage.host
  | offer | configure | meanwhile => rfl

/-- A request does nothing to the host but to launch programs, unless it stands for
    what happens around the invoker. -/
theorem host_after (request : Request σ)
    (hrequest : ∀ files outcomes, request ≠ .meanwhile files outcomes) :
    ∃ launches, usage.host.Launches (usage.after request).host launches := by
  cases request with
  | setScope candidate =>
      refine ⟨[], ?_⟩
      simp only [after, perform]
      split
      · exact .refl usage.host
      · exact .refl usage.host
  | ensureScope prompt =>
      refine ⟨[], ?_⟩
      simp only [after, perform]
      split
      · exact .refl usage.host
      · exact .refl usage.host
  | setLimit | offer | prepare | configure => exact ⟨[], .refl usage.host⟩
  | execute invocation => exact usage.invoker.execute_launches usage.host invocation
  | run mode target prompt =>
      exact usage.invoker.run_launches usage.host mode target prompt usage.state
  | toolchain =>
      rcases usage.invoker.toolchain_asks usage.host rfl with ⟨asked, hasks⟩
      exact ⟨asked, hasks.launches.1⟩
  | meanwhile files outcomes => exact absurd rfl (hrequest files outcomes)

/-- No request changes the environment of the host. -/
theorem environment_after (request : Request σ) :
    (usage.after request).host.environment = usage.host.environment := by
  by_cases hrequest : ∃ files outcomes, request = .meanwhile files outcomes
  · rcases hrequest with ⟨files, outcomes, rfl⟩
    rfl
  · rcases usage.host_after request fun files outcomes heq => hrequest ⟨files, outcomes, heq⟩ with
      ⟨launches, outcomes, hhost⟩
    rw [hhost]

theorem environment_follow (requests : List (Request σ)) :
    (usage.follow requests).host.environment = usage.host.environment := by
  induction requests generalizing usage with
  | nil => rfl
  | cons request requests ih =>
      exact (ih (usage.after request)).trans (usage.environment_after request)

end Usage

end QueryDesk
