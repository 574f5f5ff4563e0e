import QueryDesk.Proofs.Query.Position
import QueryDesk.Proofs.Query.Session
import QueryDesk.Query.Invoker

/-!
# How queries are put together

A query is put together from a known question and a file that is on disk as it is
shown. Then there has to be a scope, and at last the selection is described. Each
of these steps can be where it ends, and only the one about the scope changes
anything.

## Main definitions

* `Invoker.Proper`: A known question about a file that is on disk as it is shown.
* `Invoker.Unfit`: What there is against the question or the file.
* `Invoker.Prepares`: What putting a query together comes to.

## Theorems

* `ofName?_eq_none_iff`: Every question is found by its name.
* `vet_unfit`, `vet_proper`: What comes of looking at the question and the file.
* `prepare_prepares`: Putting a query together comes to one of four ends.
* `prepare_invoker`: Only the session is touched, and only for a proper query.
* `prepare_isAbsolute`: A query is about a file with an absolute path.
* `prepare_recorded`: A prompt is asked once, and only for a proper query of a
  session without a scope.
* `describe_refused`: A selection is refused only where it is not known.
-/

namespace QueryDesk

/-- Every question is found by its name. -/
theorem Mode.ofName?_eq_none_iff (name : Text) :
    Mode.ofName? name = none ↔ ∀ question : Mode, question.name ≠ name := by
  have hall : ∀ question : Mode, question ∈ Mode.all := fun question => by
    cases question <;> decide
  rw [Mode.ofName?, List.find?_eq_none]
  constructor
  · intro h question hname
    exact h question (hall question) (beq_iff_eq.mpr hname)
  · intro h question _ hname
    exact h question (beq_iff_eq.mp hname)

/-! ## Selections that are refused -/

namespace Host

variable (host : Host) {refusal : Refusal}

theorem homeOf_ne_refused (name : Text) : host.homeOf name ≠ .error (.query refusal) := by
  unfold homeOf
  simp only
  split
  · simp only [ne_eq, Except.error.injEq, reduceCtorEq, not_false_eq_true]
  · split
    · simp only [ne_eq, Except.error.injEq, reduceCtorEq, not_false_eq_true]
    · split
      · simp only [ne_eq, Except.error.injEq, reduceCtorEq, not_false_eq_true]
      · simp only [ne_eq, reduceCtorEq, not_false_eq_true]

theorem expandHome_ne_refused (path : FilePath) :
    host.expandHome path ≠ .error (.query refusal) := by
  unfold expandHome
  split
  · next name rest _ _ =>
      split
      · split
        · next failure heq =>
            intro h
            rw [Except.error.inj h] at heq
            exact host.homeOf_ne_refused name heq
        · simp only [ne_eq, reduceCtorEq, not_false_eq_true]
      · simp only [ne_eq, reduceCtorEq, not_false_eq_true]
  · simp only [ne_eq, reduceCtorEq, not_false_eq_true]

theorem canonicalPath_ne_refused (path : Text) :
    host.canonicalPath path ≠ .error (.query refusal) := by
  unfold canonicalPath
  simp only
  split
  · simp only [ne_eq, reduceCtorEq, not_false_eq_true]
  · split
    · next failure heq =>
        intro h
        rw [Except.error.inj h] at heq
        exact host.expandHome_ne_refused _ heq
    · split
      · simp only [ne_eq, reduceCtorEq, not_false_eq_true]
      · simp only [ne_eq, reduceCtorEq, not_false_eq_true]

theorem readBytes_ne_refused (path : Text) : host.readBytes path ≠ .error (.query refusal) := by
  unfold readBytes
  split
  · simp only [ne_eq, reduceCtorEq, not_false_eq_true]
  · simp only [ne_eq, Except.error.injEq, reduceCtorEq, not_false_eq_true]

theorem charWidths_ne_refused (path : Text) : host.charWidths path ≠ .error (.query refusal) := by
  unfold charWidths
  split
  · simp only [ne_eq, reduceCtorEq, not_false_eq_true]
  · simp only [ne_eq, reduceCtorEq, not_false_eq_true]
  · next failure _ heq =>
      intro h
      rw [Except.error.inj h] at heq
      exact host.readBytes_ne_refused _ heq

theorem measure_ne_refused (path : Text) (text : Option Text) :
    host.measure path text ≠ .error (.query refusal) := by
  unfold measure
  split
  · next failure heq =>
      intro h
      rw [Except.error.inj h] at heq
      exact host.canonicalPath_ne_refused _ heq
  · split
    · split
      · next failure heq =>
          intro h
          rw [Except.error.inj h] at heq
          exact host.readBytes_ne_refused _ heq
      · simp only [ne_eq, reduceCtorEq, not_false_eq_true]
    · split
      · next failure heq =>
          intro h
          rw [Except.error.inj h] at heq
          exact host.charWidths_ne_refused _ heq
      · simp only [ne_eq, reduceCtorEq, not_false_eq_true]

/-- A selection is refused only where it is not known. -/
theorem describe_refused (path : Text) (selection : Except Failure Selection) (text : Option Text)
    (h : host.describe path selection text = .error (.query refusal)) :
    selection = .error (.query refusal) := by
  unfold describe at h
  split at h
  · next failure heq =>
      rw [Except.error.inj h] at heq
      exact absurd heq (host.measure_ne_refused path text)
  · cases selection with
    | error failure => rw [Except.error.inj h]
    | ok selection => exact absurd h (by simp only [Except.map, reduceCtorEq, not_false_eq_true])

end Host

namespace Invoker

variable {σ : Type} (invoker : Invoker) (host : Host) {mode : Text} {target : EditorTarget}

/-! ## The question and the file -/

/-- A known question about a file that is on disk as it is shown. -/
structure Proper (mode : Text) (target : EditorTarget) : Prop where
  known : ∃ question : Mode, question.name = Text.trim mode
  placed : Text.trim (target.path.getD []) ≠ []
  saved : target.modified = false

/-- What there is against the question or the file of a query. Each reason counts
    when those before it do not hold. -/
inductive Unfit (mode : Text) (target : EditorTarget) : Refusal → Prop
  | unknownMode (h : ∀ question : Mode, question.name ≠ Text.trim mode) :
      Unfit mode target (.unknownMode (Text.trim mode))
  | noFile (hmode : ∃ question : Mode, question.name = Text.trim mode)
      (h : Text.trim (target.path.getD []) = []) :
      Unfit mode target (.noFile Refusal.noFileWords)
  | unsavedChanges (hmode : ∃ question : Mode, question.name = Text.trim mode)
      (hpath : Text.trim (target.path.getD []) ≠ []) (h : target.modified = true) :
      Unfit mode target (.unsavedChanges (Text.trim (target.path.getD [])))

-- A known question passes the first test.
theorem isNone_ofName? (h : ∃ question : Mode, question.name = Text.trim mode) :
    (Mode.ofName? (Text.trim mode)).isNone = false := by
  rcases h with ⟨question, hname⟩
  rw [Option.isNone_eq_false_iff, Option.isSome_iff_ne_none]
  exact fun hnone => (Mode.ofName?_eq_none_iff _).mp hnone question hname

theorem vet_unfit {refusal : Refusal} (h : Unfit mode target refusal) :
    vet mode target = .error refusal := by
  unfold vet
  cases h with
  | unknownMode h =>
      simp only [(Mode.ofName?_eq_none_iff (Text.trim mode)).mpr h, Option.isNone_none, if_true]
  | noFile hmode h =>
      simp only [isNone_ofName? hmode, h, List.isEmpty_nil, Bool.false_eq_true, if_false, if_true]
  | unsavedChanges hmode hpath h =>
      simp only [isNone_ofName? hmode, List.isEmpty_eq_false_iff.mpr hpath, h,
        Bool.false_eq_true, if_false, if_true]

theorem vet_proper (h : Proper mode target) :
    vet mode target = .ok (Text.trim mode, Text.trim (target.path.getD [])) := by
  unfold vet
  simp only [isNone_ofName? h.known, List.isEmpty_eq_false_iff.mpr h.placed, h.saved,
    Bool.false_eq_true, if_false]

/-- There is something against every query that is not proper. -/
theorem unfit_of_not_proper (h : ¬ Proper mode target) :
    ∃ refusal, Unfit mode target refusal := by
  by_cases hmode : ∃ question : Mode, question.name = Text.trim mode
  · by_cases hpath : Text.trim (target.path.getD []) = []
    · exact ⟨_, .noFile hmode hpath⟩
    · refine ⟨_, .unsavedChanges hmode hpath ?_⟩
      by_contra hmodified
      exact h ⟨hmode, hpath, Bool.eq_false_iff.mpr hmodified⟩
  · exact ⟨_, .unknownMode (not_exists.mp hmode)⟩

theorem proper_iff : Proper mode target ↔ (vet mode target).isOk = true := by
  constructor
  · intro h
    rw [vet_proper h]
    rfl
  · intro hok
    by_contra h
    rcases unfit_of_not_proper h with ⟨refusal, hunfit⟩
    rw [vet_unfit hunfit] at hok
    exact Bool.false_ne_true hok

instance : Decidable (Proper mode target) :=
  decidable_of_iff _ proper_iff.symm

/-! ## Putting a query together -/

section Prepare

variable (mode target) (prompt : Option (Prompt σ)) (state : σ)

/-- What putting a query together comes to: a query or a failure, the invoker and
    the state of the prompt. -/
inductive Prepares : Except Failure Invocation × Invoker × σ → Prop
  /-- Something is found against the question or the file. -/
  | unfit {refusal : Refusal} (hunfit : Unfit mode target refusal) :
      Prepares (.error (.query refusal), invoker, state)
  /-- There is no scope. -/
  | unscoped {refusal : Refusal} {session : Session} {after : σ} (hproper : Proper mode target)
      (hensure : invoker.session.ensureScope prompt state = (.error refusal, session, after)) :
      Prepares (.error (.query refusal), { invoker with session }, after)
  /-- The selection cannot be described. -/
  | undescribed {scope : Text} {session : Session} {after : σ} {failure : Failure}
      (hproper : Proper mode target)
      (hensure : invoker.session.ensureScope prompt state = (.ok scope, session, after))
      (hdescribe : host.describe (Text.trim (target.path.getD [])) target.selection target.text
        = .error failure) :
      Prepares (.error failure, { invoker with session }, after)
  /-- The query is put together. -/
  | ready {scope : Text} {session : Session} {after : σ} {position : Descriptor}
      (hproper : Proper mode target)
      (hensure : invoker.session.ensureScope prompt state = (.ok scope, session, after))
      (hdescribe : host.describe (Text.trim (target.path.getD [])) target.selection target.text
        = .ok position) :
      Prepares (.ok ⟨Text.trim mode, scope, position, []⟩, { invoker with session }, after)

variable {mode target prompt state}

theorem prepare_unfit {refusal : Refusal} (hunfit : Unfit mode target refusal) :
    invoker.prepare host mode target prompt state
      = (.error (.query refusal), invoker, state) := by
  rw [prepare, vet_unfit hunfit]

theorem prepare_unscoped {refusal : Refusal} {session : Session} {after : σ}
    (hproper : Proper mode target)
    (hensure : invoker.session.ensureScope prompt state = (.error refusal, session, after)) :
    invoker.prepare host mode target prompt state
      = (.error (.query refusal), { invoker with session }, after) := by
  rw [prepare, vet_proper hproper]
  simp only [hensure]

theorem prepare_scoped {scope : Text} {session : Session} {after : σ}
    (hproper : Proper mode target)
    (hensure : invoker.session.ensureScope prompt state = (.ok scope, session, after)) :
    invoker.prepare host mode target prompt state
      = ((host.describe (Text.trim (target.path.getD [])) target.selection target.text).map
          fun position => ⟨Text.trim mode, scope, position, []⟩,
        { invoker with session }, after) := by
  rw [prepare, vet_proper hproper]
  simp only [hensure]
  cases host.describe (Text.trim (target.path.getD [])) target.selection target.text with
  | error failure => rfl
  | ok position => rfl

/-- Putting a query together comes to one of four ends. -/
theorem prepare_prepares :
    invoker.Prepares host mode target prompt state
      (invoker.prepare host mode target prompt state) := by
  by_cases hproper : Proper mode target
  · rcases hensure : invoker.session.ensureScope prompt state with ⟨scope | scope, session, after⟩
    · rw [prepare_unscoped invoker host hproper hensure]
      exact .unscoped hproper hensure
    · rw [prepare_scoped invoker host hproper hensure]
      cases hdescribe : host.describe (Text.trim (target.path.getD [])) target.selection
          target.text with
      | error failure => exact .undescribed hproper hensure hdescribe
      | ok position => exact .ready hproper hensure hdescribe
  · rcases unfit_of_not_proper hproper with ⟨refusal, hunfit⟩
    rw [prepare_unfit invoker host hunfit]
    exact .unfit hunfit

/-- Putting a query together touches nothing of the invoker but the session, which
    is made sure of a scope if the query is proper. -/
theorem prepare_invoker :
    (invoker.prepare host mode target prompt state).2.1
      = { invoker with
          session := if Proper mode target then (invoker.session.ensureScope prompt state).2.1
            else invoker.session } := by
  by_cases hproper : Proper mode target
  · rw [if_pos hproper]
    rcases hensure : invoker.session.ensureScope prompt state with ⟨scope | scope, session, after⟩
    · rw [prepare_unscoped invoker host hproper hensure]
    · rw [prepare_scoped invoker host hproper hensure]
  · rcases unfit_of_not_proper hproper with ⟨refusal, hunfit⟩
    rw [if_neg hproper, prepare_unfit invoker host hunfit]

/-- A query that was put together is about a file with an absolute path. -/
theorem prepare_isAbsolute (invocation : Invocation)
    (h : (invoker.prepare host mode target prompt state).1 = .ok invocation) :
    Path.isAbsolute invocation.position.path = true := by
  have hends : invoker.Prepares host mode target prompt state
      (invoker.prepare host mode target prompt state) := prepare_prepares invoker host
  generalize invoker.prepare host mode target prompt state = outcome at h hends
  cases hends with
  | unfit | unscoped | undescribed =>
      exact absurd h (by simp only [reduceCtorEq, not_false_eq_true])
  | ready hproper hensure hdescribe =>
      rw [← Except.ok.inj h]
      -- The path asked about is trimmed and not empty, so the canonical one is absolute.
      refine Host.canonicalPath_isAbsolute host _ _ (Host.describe_path host _ _ _ _ hdescribe) ?_
      rw [Text.trim_trim]
      exact hproper.placed

theorem run_failed {failure : Failure} {preparing : Invoker} {after : σ}
    (hprepare : invoker.prepare host mode target prompt state
      = (.error failure, preparing, after)) :
    invoker.run host mode target prompt state = (.error failure, preparing, host, after) := by
  simp only [run, hprepare]

theorem run_prepared {invocation : Invocation} {preparing : Invoker} {after : σ}
    (hprepare : invoker.prepare host mode target prompt state
      = (.ok invocation, preparing, after)) :
    invoker.run host mode target prompt state
      = ((preparing.execute host invocation).1, (preparing.execute host invocation).2.1,
        (preparing.execute host invocation).2.2, after) := by
  simp only [run, hprepare]

/-- A prompt that notes what it is shown changes nothing else. It is asked once, and
    only for a proper query of a session without a scope. -/
theorem prepare_recorded (log : List (Text × List Text)) :
    invoker.prepare host mode target (prompt.map Prompt.recorded) (state, log)
      = ((invoker.prepare host mode target prompt state).1,
        (invoker.prepare host mode target prompt state).2.1,
        (invoker.prepare host mode target prompt state).2.2,
        log ++ if Proper mode target ∧ invoker.session.scope = [] ∧ prompt.isSome = true
          then [(invoker.session.scope, invoker.session.recalled)] else []) := by
  by_cases hproper : Proper mode target
  · have hrecorded := invoker.session.ensureScope_recorded prompt state log
    simp only [hproper, true_and]
    rcases hensure : invoker.session.ensureScope prompt state with ⟨scope | scope, session, after⟩
    · rw [hensure] at hrecorded
      rw [prepare_unscoped invoker host hproper hensure,
        prepare_unscoped invoker host hproper hrecorded]
    · rw [hensure] at hrecorded
      rw [prepare_scoped invoker host hproper hensure,
        prepare_scoped invoker host hproper hrecorded]
  · rcases unfit_of_not_proper hproper with ⟨refusal, hunfit⟩
    rw [prepare_unfit invoker host hunfit, prepare_unfit invoker host hunfit,
      if_neg fun h => hproper h.1, List.append_nil]

end Prepare

end Invoker

end QueryDesk
