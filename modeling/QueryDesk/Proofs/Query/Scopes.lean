import QueryDesk.Proofs.Query.Requests

/-!
# The scopes of a session

All scopes that were put into force, the newest first, are a log that nothing but
a run of requests shows. The session knows the newest of them, which is in force,
and as many of the last ones as its limit lets it keep. One is always kept.

A request that fails leaves the session as it was, with one exception. A query that
has to ask for a scope puts it into force before the rest of the query is looked
at. When the file cannot be measured then, or the tool cannot be started, the scope
stays.

## Main definitions

* `Session.Keeps`: A session keeps the newest scopes of a log.

## Theorems

* `Keeps.commit`, `Keeps.setLimit`: What is kept of the log after a commit, and
  after the history is limited.
* `keeps_after`, `keeps_follow`: A session keeps the newest scopes of its log.
* `commit_history`: A commit drops a scope only when the limit is reached.
* `commits_of_error`: A request that fails and commits is one that puts a query
  together.
* `newest_scopes_kept`: What a session knows after any requests.
-/

namespace QueryDesk

namespace Session

/-- The session keeps the newest scopes of a log. -/
structure Keeps (log : List Text) (session : Session) : Prop where
  inForce : session.scope = log.headD []
  worded : ∀ scope ∈ log, Text.trim scope = scope ∧ scope ≠ []
  history : session.history <+: log
  bounded : session.history.length ≤ session.keep
  held : log ≠ [] → session.history ≠ []

theorem keep_pos (session : Session) : 1 ≤ session.keep := by
  unfold keep
  omega

theorem keeps_fresh (limit : Int) : Keeps [] ⟨[], [], limit⟩ where
  inForce := rfl
  worded _ h := absurd h List.not_mem_nil
  history := List.prefix_refl []
  bounded := Nat.zero_le _
  held h := absurd rfl h

variable {session : Session} {log : List Text}

theorem Keeps.commit (h : Keeps log session) {scope : Text}
    (hscope : Text.trim scope = scope ∧ scope ≠ []) :
    Keeps (scope :: log) (session.commit scope) where
  inForce := rfl
  worded := List.forall_mem_cons.mpr ⟨hscope, h.worded⟩
  history := (List.take_prefix _ _).trans (List.cons_prefix_cons.mpr ⟨rfl, h.history⟩)
  bounded := List.length_take_le _ _
  held _ := by
    obtain ⟨n, hn⟩ : ∃ n, session.keep = n + 1 := ⟨_, (Nat.sub_add_cancel session.keep_pos).symm⟩
    rw [Session.commit, hn, List.take_succ_cons]
    exact List.cons_ne_nil _ _

theorem Keeps.setLimit (h : Keeps log session) (limit : Int) :
    Keeps log (session.setLimit limit) where
  inForce := h.inForce
  worded := h.worded
  history := (List.take_prefix _ _).trans h.history
  bounded := by
    have hkeep : (session.setLimit limit).keep = (max 1 limit).toNat := by
      change (max 1 (max 1 limit)).toNat = _
      omega
    rw [hkeep]
    exact List.length_take_le _ _
  held hlog hnil := by
    rcases List.take_eq_nil_iff.mp hnil with hzero | hhistory
    · omega
    · exact h.held hlog hhistory

/-- No scope is in force just when none was ever put into force. -/
theorem Keeps.scope_eq_nil_iff (h : Keeps log session) : session.scope = [] ↔ log = [] := by
  rw [h.inForce]
  cases log with
  | nil => exact iff_of_true rfl rfl
  | cons scope log =>
      exact iff_of_false (h.worded scope List.mem_cons_self).2 (List.cons_ne_nil scope log)

/-- The history begins with the scope in force. -/
theorem Keeps.history_eq_cons (h : Keeps log session) (hscope : session.scope ≠ []) :
    ∃ older, session.history = session.scope :: older := by
  have hlog : log ≠ [] := fun hnil => hscope (h.scope_eq_nil_iff.mpr hnil)
  have hprefix := h.history
  cases hhistory : session.history with
  | nil => exact absurd hhistory (h.held hlog)
  | cons newest older =>
      rw [hhistory] at hprefix
      rcases hprefix with ⟨dropped, hlog⟩
      refine ⟨older, ?_⟩
      rw [h.inForce, ← hlog]
      rfl

/-- A prompt is offered the history without repetitions. -/
theorem Keeps.recalled (h : Keeps log session) :
    session.recalled = session.history.eraseDups := by
  -- All values but a missing scope are offered.
  have hoffered : ∀ value ∈ session.history,
      (!value.isEmpty && !([] : List Text).contains value) = true := by
    intro value hvalue
    rw [List.isEmpty_eq_false_iff.mpr (h.worded value (h.history.subset hvalue)).2]
    rfl
  rw [Session.recalled, firsts_eq_eraseDups]
  by_cases hscope : session.scope = []
  · rw [hscope, List.filter_cons_of_neg (by exact Bool.false_ne_true),
      List.filter_eq_self.mpr hoffered]
  · rcases h.history_eq_cons hscope with ⟨older, hhistory⟩
    have hscope : session.scope ∈ session.history := by
      rw [hhistory]
      exact List.mem_cons_self
    rw [List.filter_eq_self.mpr fun value hvalue => hoffered value
        ((List.mem_cons.mp hvalue).elim (fun heq => heq ▸ hscope) id), hhistory,
      List.eraseDups_cons, List.eraseDups_cons, List.filter_cons_of_neg]
    simp only [beq_self_eq_true, Bool.not_true, Bool.false_eq_true, not_false_eq_true]

/-- A commit drops a scope only when the limit is reached. -/
theorem commit_history (session : Session) (scope : Text) :
    (session.commit scope).history = scope :: session.history
      ∨ (session.commit scope).history <+: scope :: session.history
        ∧ (session.commit scope).history.length = session.keep := by
  by_cases hfits : (scope :: session.history).length ≤ session.keep
  · exact .inl (List.take_of_length_le hfits)
  · refine .inr ⟨List.take_prefix _ _, ?_⟩
    exact List.length_take_of_le (Nat.le_of_not_le hfits)

end Session

namespace Usage

variable {σ : Type} (usage : Usage σ)

/-! ## Requests -/

/-- A request that puts a scope into force and fails is a query that is put
    together. -/
theorem commits_of_error {request : Request σ} {failure : Failure} {scope : Text}
    (herror : (usage.perform request).1 = .error failure)
    (h : usage.commits request = some scope) :
    ∃ mode target prompt, request = .prepare mode target prompt
      ∨ request = .run mode target prompt := by
  cases request with
  | setScope candidate =>
      have hgiven : Text.trim candidate ≠ [] := by
        intro hblank
        rw [commits, Text.worded, if_pos hblank] at h
        exact absurd h (by simp only [reduceCtorEq, not_false_eq_true])
      simp only [perform, usage.session.setScope_given hgiven] at herror
      exact absurd herror (by simp only [reduceCtorEq, not_false_eq_true])
  | ensureScope prompt =>
      have hensured := (usage.session.ensureScope_session prompt usage.state).2
      simp only [perform] at herror
      split at herror
      · next refusal session state hensure =>
          rw [commits, hensured refusal (by rw [hensure])] at h
          exact absurd h (by simp only [reduceCtorEq, not_false_eq_true])
      · exact absurd herror (by simp only [reduceCtorEq, not_false_eq_true])
  | prepare mode target prompt => exact ⟨mode, target, prompt, .inl rfl⟩
  | run mode target prompt => exact ⟨mode, target, prompt, .inr rfl⟩
  | setLimit | offer | execute | toolchain | configure | meanwhile =>
      exact absurd h (by simp only [commits, reduceCtorEq, not_false_eq_true])

/-- A request that fails leaves the session as it was, or with the scope that a
    query put into force before it failed. -/
theorem session_of_error {request : Request σ} {failure : Failure}
    (herror : (usage.perform request).1 = .error failure) :
    (usage.after request).session = usage.session
      ∨ ∃ scope mode target prompt, usage.commits request = some scope
        ∧ (request = .prepare mode target prompt ∨ request = .run mode target prompt)
        ∧ (usage.after request).session = usage.session.commit scope := by
  have hlimit : ∀ limit, request ≠ .setLimit limit := by
    rintro limit rfl
    exact absurd herror (by simp only [perform, reduceCtorEq, not_false_eq_true])
  rw [usage.session_after request hlimit]
  cases hcommits : usage.commits request with
  | none => exact .inl rfl
  | some scope =>
      rcases usage.commits_of_error herror hcommits with ⟨mode, target, prompt, hrequest⟩
      exact .inr ⟨scope, mode, target, prompt, rfl, hrequest, rfl⟩

/-- One request: the session keeps the newest scopes of the log. -/
theorem keeps_after {log : List Text} (h : usage.session.Keeps log) (request : Request σ) :
    (usage.after request).session.Keeps ((usage.commits request).toList ++ log) := by
  by_cases hlimit : ∃ limit, request = .setLimit limit
  · rcases hlimit with ⟨limit, rfl⟩
    exact h.setLimit limit
  · rw [usage.session_after request (not_exists.mp hlimit)]
    cases hcommits : usage.commits request with
    | none => exact h
    | some scope => exact h.commit (usage.commits_worded hcommits)

/-- Several requests: the session keeps the newest scopes of the log. -/
theorem keeps_follow {log : List Text} (h : usage.session.Keeps log)
    (requests : List (Request σ)) :
    (usage.follow requests).session.Keeps (usage.committed requests ++ log) := by
  induction requests generalizing usage log with
  | nil => exact h
  | cons request requests ih =>
      rw [committed, List.append_assoc]
      exact ih (usage.after request) (usage.keeps_after h request)

/-- A query asks for a scope, and then the tool is not found. The query fails, and
    the scope stays. -/
theorem failed_query_commits :
    let target : EditorTarget := ⟨some "/work/a.go", false, some "package a\n", .ok ⟨1, none⟩⟩
    let prompt : Prompt Unit := fun _ _ state => (some "main", state)
    let usage : Usage Unit :=
      ⟨.fresh .fresh "oracle" (.fixed ⟨"/go", ["/a"], []⟩), .ofFiles ⟨[]⟩, ()⟩
    let outcome := usage.perform (.run "describe" target (some prompt))
    usage.session = ⟨[], [], 32⟩
      ∧ outcome.1.isOk = false ∧ outcome.2.session = ⟨"main", ["main"], 32⟩ := by
  decide +kernel

/-- After any requests to an invoker that began without a scope, the newest scope
    that was put into force is in force and begins the history, which holds as many
    of the newest scopes as the limit allows, but always one. A prompt is offered
    the history without repetitions. The next request drops scopes only for the
    limit, and if it fails it leaves the session as it is, unless a query is put
    together: that keeps the scope its prompt gave. -/
theorem newest_scopes_kept (limit : Int) (command : Text) (source : ToolchainSource) (host : Host)
    (state : σ) (requests : List (Request σ)) :
    let fresh : Usage σ := ⟨.fresh ⟨[], [], limit⟩ command source, host, state⟩
    let usage := fresh.follow requests
    let session := usage.session
    let log := fresh.committed requests
    (session.scope = [] ↔ log = [])
      ∧ (session.scope ≠ [] → Text.trim session.scope = session.scope
        ∧ session.history.head? = some session.scope
        ∧ session.recalled.head? = some session.scope)
      ∧ session.history <+: log
      ∧ session.history.length ≤ (max 1 session.limit).toNat
      ∧ (log ≠ [] → 1 ≤ session.history.length)
      ∧ session.recalled = session.history.eraseDups
      ∧ ∀ request, let next := (usage.perform request).2.session
        (∀ scope, usage.commits request = some scope →
            next.scope = scope ∧ next.limit = session.limit
              ∧ (next.history = scope :: session.history
                ∨ next.history <+: scope :: session.history
                  ∧ next.history.length = (max 1 session.limit).toNat))
          ∧ ∀ failure, (usage.perform request).1 = .error failure →
            next = session
              ∨ ∃ scope mode target prompt, usage.commits request = some scope
                ∧ (request = .prepare mode target prompt ∨ request = .run mode target prompt)
                ∧ next = session.commit scope := by
  intro fresh usage session log
  have hkeeps : session.Keeps log := by
    have hfollow := fresh.keeps_follow (Session.keeps_fresh limit) requests
    rwa [List.append_nil] at hfollow
  refine ⟨hkeeps.scope_eq_nil_iff, fun hscope => ?_, hkeeps.history, hkeeps.bounded,
    fun hlog => List.length_pos_iff.mpr (hkeeps.held hlog), hkeeps.recalled, fun request => ?_⟩
  · rcases hkeeps.history_eq_cons hscope with ⟨older, hhistory⟩
    refine ⟨?_, ?_, ?_⟩
    · refine (hkeeps.worded session.scope (hkeeps.history.subset ?_)).1
      rw [hhistory]
      exact List.mem_cons_self
    · rw [hhistory]
      rfl
    · rw [hkeeps.recalled, hhistory, List.eraseDups_cons]
      rfl
  · refine ⟨fun scope hcommits => ?_, fun failure => usage.session_of_error⟩
    have hlimit : ∀ limit, request ≠ .setLimit limit := by
      rintro limit rfl
      exact absurd hcommits (by simp only [commits, reduceCtorEq, not_false_eq_true])
    have hnext : (usage.perform request).2.session = session.commit scope := by
      have hafter := usage.session_after request hlimit
      rwa [hcommits] at hafter
    simp only [hnext]
    exact ⟨rfl, rfl, session.commit_history scope⟩

end Usage

end QueryDesk
