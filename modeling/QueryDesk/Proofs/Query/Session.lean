import QueryDesk.Proofs.Repeats
import QueryDesk.Proofs.Text.Trim
import QueryDesk.Query.Session

/-!
# What a session does with scopes

Making sure of a scope comes to one of four ends. Only the last of them changes
the session: there was no scope, a prompt was there to ask, and what it answered
is not blank. A prompt that is canceled is like none at all.

A prompt offers the values of the history, each at its first place.

## Main definitions

* `Session.consult`: What a prompt answers, if there is one.
* `Text.worded`: The scope that a text puts into force.
* `Session.given`: The scope that a prompt puts into force.
* `Session.Ensures`: What making sure of a scope comes to.
* `Prompt.recorded`: A prompt that notes what it is shown.

## Theorems

* `setScope_blank`, `setScope_given`: Only blanks cannot be put into force.
* `ensureScope_inForce`, `ensureScope_unanswered`, `ensureScope_blank`,
  `ensureScope_given`: The four ends.
* `ensureScope_ensures`: Making sure of a scope comes to one of four ends.
* `ensureScope_session`: The session has the scope that was given, and is the same
  otherwise.
* `ensureScope_recorded`: A prompt is asked once, and only when there is no scope.
* `firsts_eq_eraseDups`: Values at their first places are values without
  repetitions.
-/

namespace QueryDesk

/-- The prompt that also notes the scope and the values it is shown each time, the
    first time first. -/
def Prompt.recorded {σ : Type} (ask : Prompt σ) : Prompt (σ × List (Text × List Text)) :=
  fun scope items state =>
    ((ask scope items state.1).1, (ask scope items state.1).2, state.2 ++ [(scope, items)])

/-- The scope that a text puts into force: what is left between the blanks around
    it, if anything is. -/
def Text.worded (candidate : Text) : Option Text :=
  if Text.trim candidate = [] then none else some (Text.trim candidate)

theorem Text.trim_worded {candidate scope : Text} (h : Text.worded candidate = some scope) :
    Text.trim scope = scope ∧ scope ≠ [] := by
  unfold worded at h
  split at h
  · exact absurd h (by simp only [reduceCtorEq, not_false_eq_true])
  · next hgiven =>
      rw [← Option.some.inj h]
      exact ⟨Text.trim_trim candidate, hgiven⟩

-- What trimming leaves is not blank.
theorem Text.exists_not_blank {scope : Text} (h : Text.trim scope = scope ∧ scope ≠ []) :
    ∃ c ∈ scope, Text.isBlank c = false := by
  by_contra hblank
  refine h.2 (h.1.symm.trans ((Text.trim_eq_nil_iff scope).mpr fun c hc => ?_))
  by_contra hc'
  exact hblank ⟨c, hc, Bool.eq_false_iff.mpr hc'⟩

namespace Session

variable {σ : Type} (session : Session)

theorem setScope_blank {candidate : Text} (h : Text.trim candidate = []) :
    session.setScope candidate = .error .emptyScope := by
  rw [setScope, h]
  rfl

theorem setScope_given {candidate : Text} (h : Text.trim candidate ≠ []) :
    session.setScope candidate
      = .ok (Text.trim candidate, session.commit (Text.trim candidate)) := by
  rw [setScope]
  exact if_neg fun hempty => h (List.isEmpty_iff.mp hempty)

/-! ## Making sure of a scope -/

/-- What a prompt answers about the scope of a session, and the state it leaves.
    Without a prompt there is no answer. -/
def consult (prompt : Option (Prompt σ)) (state : σ) : Option Text × σ :=
  match prompt with
  | none => (none, state)
  | some ask => ask session.scope session.recalled state

theorem ensureScope_inForce (prompt : Option (Prompt σ)) (state : σ) (hscope : session.scope ≠ []) :
    session.ensureScope prompt state = (.ok session.scope, session, state) := by
  have hempty : ¬ session.scope.isEmpty = true := fun h => hscope (List.isEmpty_iff.mp h)
  unfold ensureScope
  rw [if_pos (by rw [Bool.eq_false_iff.mpr hempty]; rfl)]

-- No prompt and one that is canceled come to the same.
theorem ensureScope_consult (prompt : Option (Prompt σ)) (state : σ) (hscope : session.scope = []) :
    session.ensureScope prompt state
      = match (session.consult prompt state).1 with
        | none => (.error .noScope, session, (session.consult prompt state).2)
        | some candidate =>
            match session.setScope candidate with
            | .error refusal => (.error refusal, session, (session.consult prompt state).2)
            | .ok (scope, session') =>
                (.ok scope, session', (session.consult prompt state).2) := by
  unfold ensureScope
  rw [if_neg (by rw [hscope]; exact Bool.false_ne_true)]
  cases prompt with
  | none => rfl
  | some ask =>
      unfold consult
      simp only
      rcases ask session.scope session.recalled state with ⟨answer, after⟩
      cases answer with
      | none => rfl
      | some candidate => rfl

theorem ensureScope_unanswered (prompt : Option (Prompt σ)) (state : σ)
    (hscope : session.scope = []) (hanswer : (session.consult prompt state).1 = none) :
    session.ensureScope prompt state
      = (.error .noScope, session, (session.consult prompt state).2) := by
  rw [ensureScope_consult session prompt state hscope, hanswer]

theorem ensureScope_blank (prompt : Option (Prompt σ)) (state : σ) {candidate : Text}
    (hscope : session.scope = []) (hanswer : (session.consult prompt state).1 = some candidate)
    (hblank : Text.trim candidate = []) :
    session.ensureScope prompt state
      = (.error .emptyScope, session, (session.consult prompt state).2) := by
  rw [ensureScope_consult session prompt state hscope, hanswer]
  simp only [setScope_blank session hblank]

theorem ensureScope_given (prompt : Option (Prompt σ)) (state : σ) {candidate : Text}
    (hscope : session.scope = []) (hanswer : (session.consult prompt state).1 = some candidate)
    (hgiven : Text.trim candidate ≠ []) :
    session.ensureScope prompt state
      = (.ok (Text.trim candidate), session.commit (Text.trim candidate),
        (session.consult prompt state).2) := by
  rw [ensureScope_consult session prompt state hscope, hanswer]
  simp only [setScope_given session hgiven]

/-- What making sure of a scope comes to: a scope or a refusal, the session and
    the state of the prompt. -/
inductive Ensures (prompt : Option (Prompt σ)) (state : σ) :
    Except Refusal Text × Session × σ → Prop
  /-- There is a scope, and nobody is asked. -/
  | inForce (hscope : session.scope ≠ []) :
      Ensures prompt state (.ok session.scope, session, state)
  /-- Nobody can be asked, or the question is canceled. -/
  | unanswered (hscope : session.scope = []) (hanswer : (session.consult prompt state).1 = none) :
      Ensures prompt state (.error .noScope, session, (session.consult prompt state).2)
  /-- The answer is blank. -/
  | blank (candidate : Text) (hscope : session.scope = [])
      (hanswer : (session.consult prompt state).1 = some candidate)
      (hblank : Text.trim candidate = []) :
      Ensures prompt state (.error .emptyScope, session, (session.consult prompt state).2)
  /-- The answer is put into force. -/
  | given (candidate : Text) (hscope : session.scope = [])
      (hanswer : (session.consult prompt state).1 = some candidate)
      (hgiven : Text.trim candidate ≠ []) :
      Ensures prompt state (.ok (Text.trim candidate), session.commit (Text.trim candidate),
        (session.consult prompt state).2)

/-- Making sure of a scope comes to one of four ends. -/
theorem ensureScope_ensures (prompt : Option (Prompt σ)) (state : σ) :
    session.Ensures prompt state (session.ensureScope prompt state) := by
  by_cases hscope : session.scope = []
  · cases hanswer : (session.consult prompt state).1 with
    | none =>
        rw [ensureScope_unanswered session prompt state hscope hanswer]
        exact .unanswered hscope hanswer
    | some candidate =>
        by_cases hblank : Text.trim candidate = []
        · rw [ensureScope_blank session prompt state hscope hanswer hblank]
          exact .blank candidate hscope hanswer hblank
        · rw [ensureScope_given session prompt state hscope hanswer hblank]
          exact .given candidate hscope hanswer hblank
  · rw [ensureScope_inForce session prompt state hscope]
    exact .inForce hscope

/-- A prompt that notes what it is shown answers as it would, and is shown the
    scope and the values that can be recalled. -/
theorem consult_recorded (prompt : Option (Prompt σ)) (state : σ)
    (log : List (Text × List Text)) :
    session.consult (prompt.map Prompt.recorded) (state, log)
      = ((session.consult prompt state).1, (session.consult prompt state).2,
        log ++ if prompt.isSome then [(session.scope, session.recalled)] else []) := by
  cases prompt with
  | none =>
      rw [Option.isSome_none, if_neg Bool.false_ne_true, List.append_nil]
      rfl
  | some ask => rfl

/-- The scope that is put into force when a session is made sure of one: what a
    prompt answers, if it is not blank and there was no scope. -/
def given (prompt : Option (Prompt σ)) (state : σ) : Option Text :=
  if session.scope = [] then (session.consult prompt state).1.bind Text.worded else none

/-- Making sure of a scope commits the scope that is given, and does nothing else
    to the session. Where it fails, none is given. -/
theorem ensureScope_session (prompt : Option (Prompt σ)) (state : σ) :
    (session.ensureScope prompt state).2.1
        = ((session.given prompt state).map session.commit).getD session
      ∧ ∀ refusal, (session.ensureScope prompt state).1 = .error refusal →
        session.given prompt state = none := by
  have hends := session.ensureScope_ensures prompt state
  generalize session.ensureScope prompt state = outcome at hends
  cases hends with
  | inForce hscope =>
      rw [given, if_neg hscope]
      exact ⟨rfl, fun _ _ => rfl⟩
  | unanswered hscope hanswer =>
      rw [given, if_pos hscope, hanswer]
      exact ⟨rfl, fun _ _ => rfl⟩
  | blank candidate hscope hanswer hblank =>
      rw [given, if_pos hscope, hanswer, Option.bind_some, Text.worded, if_pos hblank]
      exact ⟨rfl, fun _ _ => rfl⟩
  | given candidate hscope hanswer hgiven =>
      rw [given, if_pos hscope, hanswer, Option.bind_some, Text.worded, if_neg hgiven]
      exact ⟨rfl, fun _ h => absurd h (by simp only [reduceCtorEq, not_false_eq_true])⟩

theorem given_worded {prompt : Option (Prompt σ)} {state : σ} {scope : Text}
    (h : session.given prompt state = some scope) : Text.trim scope = scope ∧ scope ≠ [] := by
  unfold given at h
  split at h
  · rcases Option.bind_eq_some_iff.mp h with ⟨candidate, _, hworded⟩
    exact Text.trim_worded hworded
  · exact absurd h (by simp only [reduceCtorEq, not_false_eq_true])

/-- Making sure of a scope that comes to a scope comes to the one in force then. -/
theorem ensureScope_scope (prompt : Option (Prompt σ)) (state : σ) (scope : Text)
    (h : (session.ensureScope prompt state).1 = .ok scope) :
    scope = (session.ensureScope prompt state).2.1.scope ∧ scope ≠ [] := by
  have hends := session.ensureScope_ensures prompt state
  generalize session.ensureScope prompt state = outcome at h hends
  cases hends with
  | inForce hscope =>
      rw [← Except.ok.inj h]
      exact ⟨rfl, hscope⟩
  | unanswered | blank => exact absurd h (by simp only [reduceCtorEq, not_false_eq_true])
  | given candidate hscope hanswer hgiven =>
      rw [← Except.ok.inj h]
      exact ⟨rfl, hgiven⟩

/-- Making sure of a scope comes to the same with a prompt that notes what it is
    shown, and it is shown something only when there is no scope. -/
theorem ensureScope_recorded (prompt : Option (Prompt σ)) (state : σ)
    (log : List (Text × List Text)) :
    session.ensureScope (prompt.map Prompt.recorded) (state, log)
      = ((session.ensureScope prompt state).1, (session.ensureScope prompt state).2.1,
        (session.ensureScope prompt state).2.2,
        log ++ if session.scope = [] ∧ prompt.isSome = true
          then [(session.scope, session.recalled)] else []) := by
  by_cases hscope : session.scope = []
  · have hconsult := session.consult_recorded prompt state log
    simp only [hscope, true_and] at hconsult ⊢
    rw [ensureScope_consult session _ _ hscope, ensureScope_consult session _ _ hscope, hconsult]
    cases (session.consult prompt state).1 with
    | none => rfl
    | some candidate =>
        simp only
        cases session.setScope candidate with
        | error refusal => rfl
        | ok committed => rfl
  · rw [ensureScope_inForce session _ _ hscope, ensureScope_inForce session _ _ hscope,
      if_neg fun h => hscope h.1, List.append_nil]

/-! ## What a prompt offers -/

theorem firsts_eq_eraseDups (seen values : List Text) :
    firsts seen values
      = (values.filter fun value => !value.isEmpty && !seen.contains value).eraseDups := by
  induction values generalizing seen with
  | nil => rfl
  | cons value rest ih =>
      rw [firsts, List.filter_cons]
      by_cases hskip : (value.isEmpty || seen.contains value) = true
      · have hdrop : ¬ (!value.isEmpty && !seen.contains value) = true := by
          rw [← Bool.not_or, hskip]
          exact Bool.false_ne_true
        rw [if_pos hskip, if_neg hdrop, ih]
      · have hkeep : (!value.isEmpty && !seen.contains value) = true := by
          rw [← Bool.not_or]
          simpa only [Bool.not_eq_true', Bool.not_eq_true] using hskip
        rw [if_neg hskip, if_pos hkeep, ih]
        exact (eraseDups_cons_filter (fun value => !value.isEmpty) seen value rest).symm

end Session

end QueryDesk
