import QueryDesk.Proofs.Query.Executed
import QueryDesk.Proofs.Query.Prepared

/-!
# Queries that are refused

There are five reasons against a query before anything is launched: the question
is not known, there is no file, the file has changes that are not on disk, there
is no scope, and the scope that was given is blank. The first that holds decides.
Then the query has done nothing: the invoker with its session and its toolchain is
as before, and so is the host.

A query asks for a scope when nothing is against its question and its file, and
the session has none. It asks once, and shows the scope in force and what can be
recalled. What is asked is seen with a prompt that notes what it is shown.

Two other refusals come later or from elsewhere: the tool cannot be started, or
the selection is not known in the first place.

## Main definitions

* `Invoker.Bars`: The first reason against a query.

## Theorems

* `prepare_barred`: A query with a reason against it is refused and does nothing.
* `bars_of_prepare`: A query is refused only for a reason against it.
* `run_decides`: The first reason decides, nothing has happened then, and a scope
  is asked for once at most.
-/

namespace QueryDesk

namespace Invoker

variable {σ : Type} (invoker : Invoker) (host : Host) {mode : Text} {target : EditorTarget}
  {prompt : Option (Prompt σ)} {state : σ} {refusal : Refusal}

/-- The first reason against a query of a session, where `answer` is what is
    answered when a scope is asked for. -/
inductive Bars (session : Session) (mode : Text) (target : EditorTarget)
    (answer : Option Text) : Refusal → Prop
  /-- There is something against the question or the file. -/
  | unfit {refusal : Refusal} (h : Unfit mode target refusal) :
      Bars session mode target answer refusal
  /-- There is no scope, and nobody gives one. -/
  | noScope (hproper : Proper mode target) (hscope : session.scope = []) (h : answer = none) :
      Bars session mode target answer .noScope
  /-- There is no scope, and the one given is blank. -/
  | emptyScope (hproper : Proper mode target) (hscope : session.scope = []) (candidate : Text)
      (hanswer : answer = some candidate) (h : ∀ c ∈ candidate, Text.isBlank c = true) :
      Bars session mode target answer .emptyScope

-- When all five reasons hold, the question is what is told.
example : Bars .fresh "callers of" ⟨none, true, none, .ok ⟨1, none⟩⟩ none
    (.unknownMode "callers of") :=
  .unfit (.unknownMode fun question => by cases question <;> decide)

/-- A query with a reason against it is refused, and the invoker is as before. -/
theorem prepare_barred
    (h : Bars invoker.session mode target (invoker.session.consult prompt state).1 refusal) :
    ∃ after, invoker.prepare host mode target prompt state
      = (.error (.query refusal), invoker, after) := by
  cases h with
  | unfit hunfit => exact ⟨state, prepare_unfit invoker host hunfit⟩
  | noScope hproper hscope hanswer =>
      exact ⟨_, prepare_unscoped invoker host hproper
        (invoker.session.ensureScope_unanswered prompt state hscope hanswer)⟩
  | emptyScope hproper hscope candidate hanswer hblank =>
      exact ⟨_, prepare_unscoped invoker host hproper
        (invoker.session.ensureScope_blank prompt state hscope hanswer
          ((Text.trim_eq_nil_iff candidate).mpr hblank))⟩

/-- A query that is put together is refused only for a reason against it, unless
    its selection is not known. -/
theorem bars_of_prepare
    (h : (invoker.prepare host mode target prompt state).1 = .error (.query refusal)) :
    Bars invoker.session mode target (invoker.session.consult prompt state).1 refusal
      ∨ target.selection = .error (.query refusal) := by
  have hends : invoker.Prepares host mode target prompt state
      (invoker.prepare host mode target prompt state) := prepare_prepares invoker host
  generalize invoker.prepare host mode target prompt state = outcome at h hends
  cases hends with
  | unfit hunfit =>
      rw [← Failure.query.inj (Except.error.inj h)]
      exact .inl (.unfit hunfit)
  | unscoped hproper hensure =>
      rw [← Failure.query.inj (Except.error.inj h)]
      have hensures := invoker.session.ensureScope_ensures prompt state
      rw [hensure] at hensures
      cases hensures with
      | unanswered hscope hanswer => exact .inl (.noScope hproper hscope hanswer)
      | blank candidate hscope hanswer hblank =>
          exact .inl (.emptyScope hproper hscope candidate hanswer
            ((Text.trim_eq_nil_iff candidate).mp hblank))
  | undescribed hproper hensure hdescribe =>
      rw [Except.error.inj h] at hdescribe
      exact .inr (host.describe_refused _ _ _ hdescribe)
  | ready => exact absurd h (by simp only [reduceCtorEq, not_false_eq_true])

/-- The first of five reasons against a query decides, and then nothing has
    happened. It is refused for no other reason, unless its selection is not known
    or the tool cannot be started. A prompt is asked once at most: when a proper
    query finds no scope. It is shown the scope and what can be recalled, and one
    that notes this changes nothing. -/
theorem run_decides (mode : Text) (target : EditorTarget) (prompt : Option (Prompt σ))
    (state : σ) :
    let session := invoker.session
    let answer := (session.consult prompt state).1
    let outcome := invoker.run host mode target prompt state
    (∀ refusal, Bars session mode target answer refusal →
        outcome.1 = .error (.query refusal) ∧ outcome.2.1 = invoker ∧ outcome.2.2.1 = host)
      ∧ (∀ refusal, outcome.1 = .error (.query refusal) →
        Bars session mode target answer refusal
          ∨ target.selection = .error (.query refusal)
          ∨ ∃ program reason, refusal = .notStarted program reason)
      ∧ invoker.run host mode target (prompt.map Prompt.recorded) (state, [])
        = (outcome.1, outcome.2.1, outcome.2.2.1, outcome.2.2.2,
          if Proper mode target ∧ session.scope = [] ∧ prompt.isSome = true
            then [(session.scope, session.recalled)] else []) := by
  intro session answer outcome
  refine ⟨fun refusal hbars => ?_, fun refusal hrefused => ?_, ?_⟩
  · rcases prepare_barred invoker host hbars with ⟨after, hprepare⟩
    have hrun : outcome = (.error (.query refusal), invoker, host, after) :=
      run_failed invoker host hprepare
    rw [hrun]
    exact ⟨rfl, rfl, rfl⟩
  · rcases hprepare : invoker.prepare host mode target prompt state with
      ⟨failure | invocation, preparing, after⟩
    · have hrun : outcome = (.error failure, preparing, host, after) :=
        run_failed invoker host hprepare
      rw [hrun] at hrefused
      rw [Except.error.inj hrefused] at hprepare
      rcases bars_of_prepare invoker host (congrArg Prod.fst hprepare) with hbars | hselection
      · exact .inl hbars
      · exact .inr (.inl hselection)
    · have hrun : outcome.1 = (preparing.execute host invocation).1 :=
        congrArg Prod.fst (run_prepared invoker host hprepare)
      rw [hrun] at hrefused
      exact .inr (.inr (preparing.execute_refused host invocation hrefused))
  · have hrecorded : invoker.prepare host mode target (prompt.map Prompt.recorded) (state, [])
        = _ := prepare_recorded invoker host []
    rw [List.nil_append] at hrecorded
    rcases hprepare : invoker.prepare host mode target prompt state with
      ⟨failure | invocation, preparing, after⟩
    · rw [hprepare] at hrecorded
      simp only [outcome, run_failed invoker host hrecorded, run_failed invoker host hprepare,
        session]
    · rw [hprepare] at hrecorded
      simp only [outcome, run_prepared invoker host hrecorded, run_prepared invoker host hprepare,
        session]

end Invoker

end QueryDesk
