import QueryDesk.Proofs.Query.Story

/-!
# The toolchain of a configuration

From one configuration to the next there is one toolchain at most. The source is
asked when the first query needs it, again after it failed, and not again once it has
answered. What is in force when a query is launched counts, not what was in force when
it was put together: a query prepared before a configuration and launched after it
gets the toolchain of the source that is configured now.

Only a query without variables of its own needs a toolchain, and only when it is
launched. Whatever comes of it is told by its result, which has the variables it was
launched with.

## Main definitions

* `Request.Asks`: Requests that can ask a source.
* `Usage.inForce`: The source that is in force after some requests.

## Theorems

* `configured_between`: A source that gave a toolchain is asked again only after a
  configuration.
* `execute_environment`: A result has the variables of the toolchain that is kept.
* `source_follow`: The source in force was configured last.
* `kept_follow`: A toolchain that is kept was given by the source in force.
* `resolved_once`: When a source is asked, and which toolchain a result has.
-/

namespace QueryDesk

/-- A request at which a source can be asked. -/
def Request.Asks {σ : Type} : Request σ → Prop
  | .run _ _ _ | .toolchain => True
  | .execute invocation => invocation.extra = []
  | _ => False

/-- A source is asked. -/
def Happening.isQuestion : Happening → Bool
  | .asked _ _ => true
  | _ => false

theorem Ledger.asked_noteAll (ledger : Ledger) (story : List Happening) :
    (ledger.noteAll story).asked = ledger.asked + story.countP Happening.isQuestion := by
  induction story generalizing ledger with
  | nil => rfl
  | cons happening story ih =>
      rw [noteAll_cons, ih, List.countP_cons]
      cases happening with
      | asked source answer =>
          cases answer with
          | error | ok =>
              simp only [note, Happening.isQuestion, if_true]
              omega
      | configured | launched =>
          simp only [note, Happening.isQuestion, Bool.false_eq_true, if_false, Nat.add_zero]

/-- Between a question that was answered with a toolchain and any later question there
    is a configuration. -/
theorem Ledger.Lawful.configured_between {ledger : Ledger}
    {before between after : List Happening} {first second : ToolchainSource}
    {toolchain : Toolchain} {answer : Except Failure Toolchain}
    (h : ledger.Lawful
      (before ++ .asked first (.ok toolchain) :: (between ++ .asked second answer :: after))) :
    ∃ given, .configured given ∈ between := by
  by_contra hbetween
  rw [lawful_append] at h
  -- The toolchain is kept, and as long as it is only launches can come.
  have hlater := h.2.2
  rw [List.append_cons, lawful_append] at hlater
  have hnone : ∀ given, .configured given ∉ between ++ [.asked second answer] := by
    intro given h
    rcases List.mem_append.mp h with h | h
    · exact hbetween ⟨given, h⟩
    · exact Happening.noConfusion (List.mem_singleton.mp h)
  rcases (hlater.1.kept rfl hnone).1 (.asked second answer)
    (List.mem_append_right _ List.mem_cons_self) with ⟨result, hlaunched⟩
  exact Happening.noConfusion hlaunched

namespace Invoker

variable (answers : Answers) (invoker : Invoker) (host : Host)

theorem execute_source (invocation : Invocation) :
    (invoker.execute host invocation answers).2.1.source = invoker.source := by
  have hsource := (invoker.toolchain_same host answers).2
  unfold execute
  split
  · rcases hobtained : invoker.toolchain host answers with ⟨equipped, asked, failure | toolchain⟩
    all_goals
      rw [hobtained] at hsource
      exact hsource
  · rfl

/-- A query without variables of its own that gives a result has those of the
    toolchain that is kept from then on. -/
theorem execute_environment {invocation : Invocation} (hextra : invocation.extra = [])
    {result : RunResult} (h : (invoker.execute host invocation answers).1 = .ok result) :
    ∃ toolchain, (invoker.execute host invocation answers).2.1.kept = some toolchain
      ∧ result.invocation.extra = toolchain.environment := by
  unfold execute at h ⊢
  rw [if_pos (List.isEmpty_iff.mpr hextra)] at h ⊢
  rcases hobtained : invoker.toolchain host answers with ⟨equipped, asked, failure | toolchain⟩
  · rw [hobtained] at h
    exact absurd h (by simp only [reduceCtorEq, not_false_eq_true])
  · have hkept := (invoker.kept_of_toolchain host hobtained).1
    rw [hobtained] at h
    refine ⟨toolchain, hkept, ?_⟩
    rw [equipped.launch_answers asked _ result h]

end Invoker

namespace Usage

variable {σ : Type} (answers : Answers) (usage : Usage σ)

/-- The source that is in force after some requests, of which each configuration can
    give another. -/
def inForce (source : ToolchainSource) : List (Request σ) → ToolchainSource
  | [] => source
  | .configure _ given :: requests => inForce (given.getD source) requests
  | _ :: requests => inForce source requests

/-- A source is asked only at requests that can ask one. -/
theorem happenings_questions {request : Request σ} (hrequest : ¬ request.Asks) :
    (usage.happenings answers request).countP Happening.isQuestion = 0 := by
  cases request with
  | run | toolchain => exact absurd trivial hrequest
  | execute invocation =>
      have hextra : ¬ invocation.extra.isEmpty = true :=
        fun h => hrequest (List.isEmpty_iff.mp h)
      rw [happenings, Invoker.executing, if_neg hextra]
      rfl
  | setScope | ensureScope | setLimit | offer | prepare | configure | meanwhile => rfl

/-- The invoker counts the questions of its story. -/
theorem asked_follow (requests : List (Request σ)) :
    (usage.follow requests answers).invoker.asked
      = usage.invoker.asked + (usage.story answers requests).countP Happening.isQuestion :=
  (congrArg Ledger.asked (usage.story_lawful answers requests).2).trans
    (Ledger.asked_noteAll _ _)

theorem source_after (request : Request σ) :
    (usage.after request answers).invoker.source = inForce usage.invoker.source [request] := by
  cases request with
  | setScope candidate =>
      simp only [after, perform]
      split
      · rfl
      · rfl
  | ensureScope prompt =>
      simp only [after, perform]
      split
      · rfl
      · rfl
  | setLimit | offer | configure | meanwhile => rfl
  | prepare mode target prompt =>
      exact congrArg Ledger.source
        (usage.invoker.prepare_ledger usage.host mode target prompt usage.state)
  | execute invocation => exact usage.invoker.execute_source answers usage.host invocation
  | run mode target prompt =>
      have hledger := usage.invoker.prepare_ledger usage.host mode target prompt usage.state
      simp only [after, perform, Invoker.run]
      rcases hprepare : usage.invoker.prepare usage.host mode target prompt usage.state with
        ⟨failure | invocation, preparing, after⟩
      · rw [hprepare] at hledger
        exact congrArg Ledger.source hledger
      · rw [hprepare] at hledger
        exact (preparing.execute_source answers usage.host invocation).trans
          (congrArg Ledger.source hledger)
  | toolchain => exact (usage.invoker.toolchain_same usage.host answers).2

/-- The source that an invoker asks is the one that was configured last. -/
theorem source_follow (requests : List (Request σ)) :
    (usage.follow requests answers).invoker.source
      = inForce usage.invoker.source requests := by
  induction requests generalizing usage with
  | nil => rfl
  | cons request requests ih =>
      refine (ih (usage.after request answers)).trans ?_
      rw [source_after]
      cases request with | _ => rfl

/-- A query without variables of its own that gives a result has those of the
    toolchain that is kept from then on. -/
theorem perform_environment {request : Request σ} (hrequest : request.Asks)
    {result : RunResult} (h : (usage.perform request answers).1 = .ok (.finished result)) :
    ∃ toolchain, (usage.after request answers).invoker.kept = some toolchain
      ∧ result.invocation.extra = toolchain.environment := by
  -- Only a launch comes back with a result, so the reply is that of the launch.
  have hlaunch {launched : Except Failure RunResult}
      (h : launched.map Reply.finished = .ok (.finished result)) : launched = .ok result := by
    cases launched with
    | error failure => exact absurd h (by simp only [Except.map, reduceCtorEq, not_false_eq_true])
    | ok launched => rw [Reply.finished.inj (Except.ok.inj h)]
  cases request with
  | execute invocation =>
      exact usage.invoker.execute_environment answers usage.host hrequest (hlaunch h)
  | run mode target prompt =>
      simp only [perform, after, Invoker.run] at h ⊢
      have hends : usage.invoker.Prepares usage.host mode target prompt usage.state
          (usage.invoker.prepare usage.host mode target prompt usage.state) :=
        usage.invoker.prepare_prepares usage.host
      rcases hprepare : usage.invoker.prepare usage.host mode target prompt usage.state with
        ⟨failure | invocation, preparing, after⟩
      · rw [hprepare] at h
        exact absurd h (by simp only [Except.map, reduceCtorEq, not_false_eq_true])
      · rw [hprepare] at h hends
        cases hends with
        | ready => exact Invoker.execute_environment answers _ usage.host rfl (hlaunch h)
  | toolchain =>
      simp only [perform] at h
      cases hresult : (usage.invoker.toolchain usage.host answers).2.2 with
      | error | ok =>
          rw [hresult] at h
          exact absurd h (by simp only [Except.map, Except.ok.injEq, reduceCtorEq,
            not_false_eq_true])
  | setScope | ensureScope | setLimit | offer | prepare | configure | meanwhile =>
      exact absurd hrequest id

/-- A toolchain that is kept was given by the source in force, since it was
    configured. -/
theorem kept_follow (hkept : usage.invoker.kept = none) (requests : List (Request σ))
    {toolchain : Toolchain}
    (h : (usage.follow requests answers).invoker.kept = some toolchain) :
    ∃ before between,
      usage.story answers requests
        = before ++ .asked (usage.follow requests answers).invoker.source (.ok toolchain)
          :: between
      ∧ ∀ given, .configured given ∉ between := by
  rcases usage.story_lawful answers requests with ⟨hlawful, hledger⟩
  rcases Ledger.resolved_of_kept hkept ((congrArg Ledger.kept hledger).symm.trans h) with
    ⟨before, source, between, hstory, hbetween⟩
  rw [hstory] at hlawful hledger
  -- The source that was asked was in force then, and has been since.
  have hsource : source = (usage.follow requests answers).invoker.source := by
    have hsince := congrArg Ledger.source hledger
    rw [Ledger.noteAll_append, Ledger.noteAll_cons, Ledger.source_noteAll hbetween] at hsince
    cases hlawful.allows with
    | asked answer hnone => exact hsince.symm
  rw [hsource] at hstory
  exact ⟨before, between, hstory, hbetween⟩

/-- Of any requests to a new invoker: once the source has given a toolchain, no source
    is asked before the next configuration. The next request asks none unless it is
    to resolve the toolchain or to launch a query without variables of its own. A
    result of such a query has just the variables of the toolchain that the source in
    force gave, since it was configured. -/
theorem resolved_once (answers : Answers) (session : Session) (command : Text)
    (source : ToolchainSource) (host : Host) (state : σ) (requests : List (Request σ)) :
    let fresh : Usage σ := ⟨.fresh session command source, host, state⟩
    let usage := fresh.follow requests answers
    usage.invoker.asked = (fresh.story answers requests).countP Happening.isQuestion
      ∧ (∀ before first toolchain between second answer after,
        fresh.story answers requests
          = before ++ .asked first (.ok toolchain) :: (between ++ .asked second answer :: after) →
        ∃ given, .configured given ∈ between)
      ∧ ∀ request,
        (¬ request.Asks → (usage.after request answers).invoker.asked = usage.invoker.asked)
        ∧ ∀ result, request.Asks → (usage.perform request answers).1 = .ok (.finished result) →
          ∃ before toolchain between,
            fresh.story answers (requests ++ [request])
              = before ++ .asked (inForce source requests) (.ok toolchain) :: between
            ∧ (∀ given, .configured given ∉ between)
            ∧ result.invocation.extra = toolchain.environment := by
  intro fresh usage
  refine ⟨(fresh.asked_follow answers requests).trans (Nat.zero_add _), ?_, fun request => ?_⟩
  · intro before first toolchain between second answer after hstory
    have hlawful := (fresh.story_lawful answers requests).1
    rw [hstory] at hlawful
    exact hlawful.configured_between
  · refine ⟨fun hrequest => ?_, fun result hrequest hfinished => ?_⟩
    · have hledger := (usage.happenings_lawful answers request).2
      have hasked := (congrArg Ledger.asked hledger).trans (Ledger.asked_noteAll _ _)
      rw [usage.happenings_questions answers hrequest] at hasked
      exact hasked
    · rcases usage.perform_environment answers hrequest hfinished with
        ⟨toolchain, hkept, hextra⟩
      have hfollow : fresh.follow (requests ++ [request]) answers
          = usage.after request answers := by
        simp only [follow, List.foldl_append, List.foldl_cons, List.foldl_nil, usage]
      have hsource : (usage.after request answers).invoker.source = inForce source requests := by
        rw [source_after, fresh.source_follow]
        cases request with
        | configure => exact absurd hrequest id
        | _ => rfl
      rw [← hfollow] at hkept hsource
      rcases fresh.kept_follow answers rfl (requests ++ [request]) hkept with
        ⟨before, between, hstory, hbetween⟩
      rw [hsource] at hstory
      exact ⟨before, toolchain, between, hstory, hbetween, hextra⟩

end Usage

end QueryDesk
