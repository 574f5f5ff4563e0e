import QueryDesk.Proofs.Desk.Newest
import QueryDesk.Proofs.Text.Line
import QueryDesk.Proofs.Text.Utf8

/-!
# What a query tells in the end

A query that is taken puts a status up that stays until the next one. So it has to
be followed by another when the query ends, whatever became of it: a result, a tool
that could not be started, or any other failure. It is, when the query is still the
newest one and its result is collected, with one exception. A marker in the output
can have a number that is too long to be converted. Then the output cannot be shown,
the collecting ends there in a failure, and nothing is told. No result is left behind
even then, because a result comes after those of all earlier queries.

## Main definitions

* `Notice.Lasts`: A status that stays until the next one.
* `Workbench.running`, `Workbench.ending`: The status of a query that was taken, and
  the one that ends it.
* `Workbench.told`: All notices of a run.
* `Chronicle.Announces`: The invariant of what a run told.

## Theorems

* `ending_ok_iff`: Every end of a query is told but that of one with a long number.
* `drain_tells`, `drain_ends`: Collecting tells the end of the newest query, or fails.
* `perform_tells`: Only a query that is taken puts a status up that stays.
* `announces_step`, `announces_follow`: The newest query's status is the last one
  that stays, and its end comes after it.
* `drain_empties`: Collecting leaves no result on the queue.
* `newest_query_ends`: When collecting goes well, and what is told then.
* `long_number_untold`: Output that collecting fails at.
-/

namespace QueryDesk

/-- The notice is a status that stays until the next one. -/
def Notice.Lasts (notice : Notice) : Prop :=
  ∃ text, notice = .status text 0

namespace Workbench

/-- The status of a query that was taken. -/
def running (invocation : Invocation) : Notice :=
  .status ("Running oracle: " ++ Mode.labelOf invocation.mode ++ "...") 0

/-- The status that ends the newest query, unless its output cannot be shown. -/
def ending : Except Failure RunResult → Except Failure Notice
  | .error (.query (.notStarted program reason)) =>
      .ok (.status (Refusal.notStarted program reason).message longWhile)
  | .error failure => .ok (.status ("Oracle query failed: " ++ failure.message) longWhile)
  | .ok result =>
      (Annotator.standard.annotate (.ofText result.output)).map fun document =>
        .status (summary result document) shortWhile

/-- All notices of a run, in the order in which they were made. -/
def told (bench : Workbench) : List Action → List Notice
  | [] => []
  | action :: actions =>
      (bench.perform action).notices ++ told (bench.perform action).state actions

/-! ## The end of a query -/

theorem not_lasts_status (text : Text) {duration : Int} (h : duration ≠ 0) :
    ¬ (Notice.status text duration).Lasts := by
  rintro ⟨other, heq⟩
  exact h (Notice.status.inj heq).2

theorem not_lasts_debug (lines : List Text) : ¬ (Notice.debug lines).Lasts := by
  rintro ⟨_, ⟨⟩⟩

/-- Every end of a query is told but that of one whose output has a marker with a
    number that is too long. -/
theorem ending_ok_iff (result : Except Failure RunResult) :
    (∃ notice, ending result = .ok notice)
      ↔ ∀ answer, result = .ok answer → answer.output.ShortMarkers := by
  cases result with
  | error failure =>
      refine iff_of_true ?_ fun answer h =>
        absurd h (by simp only [reduceCtorEq, not_false_eq_true])
      unfold ending
      split
      · exact ⟨_, rfl⟩
      · exact ⟨_, rfl⟩
      · next h => exact absurd h (by simp only [reduceCtorEq, not_false_eq_true])
  | ok answer =>
      rw [ending]
      constructor
      · rintro ⟨notice, h⟩ other hother
        rw [← Except.ok.inj hother, ← Annotator.annotate_ok_iff Annotator.standard]
        cases hdocument : Annotator.standard.annotate (.ofText answer.output) with
        | error failure =>
            rw [hdocument] at h
            exact absurd h (by simp only [Except.map, reduceCtorEq, not_false_eq_true])
        | ok document => exact ⟨document, rfl⟩
      · intro h
        rcases (Annotator.annotate_ok_iff Annotator.standard _).mpr (h answer rfl) with
          ⟨document, hdocument⟩
        rw [hdocument]
        exact ⟨_, rfl⟩

theorem annotate_error {output : Text} {failure : Failure}
    (h : Annotator.standard.annotate (.ofText output) = .error failure) :
    failure = .longNumeral ∧ ¬ output.ShortMarkers := by
  refine ⟨?_, fun hshort => ?_⟩
  · unfold Annotator.annotate at h
    split at h
    · exact absurd h (by simp only [reduceCtorEq, not_false_eq_true])
    · exact (Except.error.inj h).symm
  · rcases (Annotator.annotate_ok_iff Annotator.standard output).mpr hshort with
      ⟨document, hdocument⟩
    rw [hdocument] at h
    exact absurd h (by simp only [reduceCtorEq, not_false_eq_true])

theorem report_tells (bench : Workbench) (failure : Failure) :
    ∃ text lines, ending (.error failure) = .ok (.status text longWhile)
      ∧ (bench.report failure).notices = [.status text longWhile, .debug lines]
      ∧ (bench.report failure).result = .ok () := by
  unfold report
  split
  · exact ⟨_, _, rfl, rfl, rfl⟩
  · next hother =>
      refine ⟨_, _, ?_, rfl, rfl⟩
      unfold ending
      split
      · next program reason heq => exact absurd (Except.error.inj heq) (hother program reason)
      · next heq => rw [Except.error.inj heq]
      · next heq => exact absurd heq (by simp only [reduceCtorEq, not_false_eq_true])

theorem present_not_lasts (bench : Workbench) (result : RunResult) (document : Document) :
    ∀ notice ∈ (bench.present result document).notices, ¬ notice.Lasts := by
  unfold present
  simp only [Outcome.tell, List.forall_mem_append, List.forall_mem_cons]
  refine ⟨⟨⟨⟨?_, List.forall_mem_nil _⟩, ?_⟩, ?_⟩, ?_, ?_, List.forall_mem_nil _⟩
  · rintro ⟨_, ⟨⟩⟩
  · split
    · refine List.forall_mem_singleton.mpr ?_
      rintro ⟨_, ⟨⟩⟩
    · exact List.forall_mem_nil _
  · split
    · exact List.forall_mem_nil _
    · exact List.forall_mem_singleton.mpr (not_lasts_debug _)
  · exact not_lasts_status _ (by decide)
  · rintro ⟨_, ⟨⟩⟩

-- The end of the newest query is told with a status that does not stay, or it fails.
theorem conclude_tells (bench : Workbench) (result : Except Failure RunResult) :
    (∃ notice, ending result = .ok notice ∧ notice ∈ (bench.conclude result).notices
        ∧ (bench.conclude result).result = .ok ()
        ∧ ∀ told ∈ (bench.conclude result).notices, ¬ told.Lasts)
      ∨ ∃ answer, result = .ok answer ∧ ¬ answer.output.ShortMarkers
        ∧ bench.conclude result = .fail bench .longNumeral := by
  cases result with
  | error failure =>
      rcases report_tells bench failure with ⟨text, lines, hending, hnotices, hok⟩
      refine Or.inl ⟨_, hending, ?_, hok, ?_⟩
      · exact hnotices ▸ List.mem_cons_self
      · rw [conclude, hnotices, List.forall_mem_cons, List.forall_mem_singleton]
        exact ⟨not_lasts_status _ (by decide), not_lasts_debug lines⟩
  | ok answer =>
      cases hdocument : Annotator.standard.annotate (.ofText answer.output) with
      | error failure =>
          rcases annotate_error hdocument with ⟨rfl, hnot⟩
          exact Or.inr ⟨answer, rfl, hnot, by simp only [conclude, hdocument]⟩
      | ok document =>
          have hnotices : (bench.conclude (.ok answer)).notices
              = (bench.present answer document).notices := by
            simp only [conclude, hdocument]
          refine Or.inl ⟨.status (summary answer document) shortWhile, ?_, ?_, ?_, ?_⟩
          · rw [ending, hdocument]
            rfl
          · rw [hnotices]
            exact List.mem_append_right _ List.mem_cons_self
          · simp only [conclude, hdocument]
            rfl
          · rw [hnotices]
            exact present_not_lasts bench answer document

/-- Collecting tells the end of the newest query when its result is on the queue,
    or fails at it and leaves what comes after it. -/
theorem drain_tells (bench : Workbench) (hnodup : (bench.results.map (·.1)).Nodup) :
    (bench.latest ∉ bench.results.map (·.1)
        ∧ bench.drain = .pure { bench with results := [] } ())
      ∨ ∃ older result newer, bench.results = older ++ (bench.latest, result) :: newer
        ∧ ((∃ notice, ending result = .ok notice ∧ notice ∈ bench.drain.notices
            ∧ bench.drain.result = .ok () ∧ ∀ told ∈ bench.drain.notices, ¬ told.Lasts)
          ∨ ∃ answer, result = .ok answer ∧ ¬ answer.output.ShortMarkers
            ∧ bench.drain = .fail { bench with results := newer } .longNumeral) := by
  rcases drain_cases bench hnodup with h | ⟨older, result, newer, hresults, hdrain⟩
  · exact Or.inl h
  · refine Or.inr ⟨older, result, newer, hresults, ?_⟩
    rw [hdrain]
    rcases conclude_tells { bench with results := newer } result with
      ⟨notice, hending, htold, hok, hquiet⟩ | ⟨answer, hanswer, hnot, hfail⟩
    · refine Or.inl ⟨notice, hending, ?_⟩
      simp only [Outcome.andThen, hok, Outcome.pure, List.append_nil, true_and]
      exact ⟨htold, hquiet⟩
    · exact Or.inr ⟨answer, hanswer, hnot, by rw [hfail]; rfl⟩

/-- Collecting goes well unless the newest query's result is on the queue and a marker
    in its output has a number that is too long. -/
theorem drain_ok_iff (bench : Workbench) (hnodup : (bench.results.map (·.1)).Nodup) :
    bench.drain.result = .ok () ↔
      ∀ result, (bench.latest, .ok result) ∈ bench.results → result.output.ShortMarkers := by
  rcases drain_tells bench hnodup with ⟨hmissing, hdrain⟩ | ⟨older, newest, newer, hresults, hends⟩
  · rw [hdrain]
    exact iff_of_true rfl fun result hmem => absurd (List.mem_map.mpr ⟨_, hmem, rfl⟩) hmissing
  · have hnewest : (bench.latest, newest) ∈ bench.results := by
      rw [hresults]
      exact List.mem_append_right older List.mem_cons_self
    rcases hends with ⟨notice, hending, _, hok, _⟩ | ⟨answer, rfl, hnot, hdrain⟩
    · refine iff_of_true hok fun result hmem =>
        (ending_ok_iff newest).mp ⟨notice, hending⟩ result ?_
      exact (Prod.mk.inj (List.inj_on_of_nodup_map hnodup hnewest hmem rfl)).2
    · rw [hdrain]
      exact iff_of_false (by simp only [Outcome.fail, reduceCtorEq, not_false_eq_true])
        fun h => hnot (h answer hnewest)

/-- Collecting that fails tells nothing. -/
theorem drain_failed (bench : Workbench) (hnodup : (bench.results.map (·.1)).Nodup)
    (h : bench.drain.result ≠ .ok ()) :
    bench.drain.result = .error .longNumeral ∧ bench.drain.notices = [] := by
  rcases drain_tells bench hnodup with ⟨_, hdrain⟩ | ⟨older, newest, newer, hresults, hends⟩
  · exact absurd (by rw [hdrain]; rfl) h
  · rcases hends with ⟨_, _, _, hok, _⟩ | ⟨answer, _, _, hdrain⟩
    · exact absurd hok h
    · rw [hdrain]
      exact ⟨rfl, rfl⟩

/-! ## What an action tells -/

theorem activate_not_lasts (bench : Workbench) (path : Text) (line column : Int) :
    ∀ notice ∈ bench.activate path line column, ¬ notice.Lasts := by
  intro notice hmem
  unfold activate at hmem
  simp only at hmem
  split at hmem
  · exact absurd hmem List.not_mem_nil
  · rw [List.mem_singleton.mp hmem]
    rintro ⟨_, ⟨⟩⟩

theorem askScope_not_lasts (current : Text) (asks : Nat) (bench : Workbench) :
    ∀ notice ∈ (askScope current asks bench).notices, ¬ notice.Lasts := by
  induction asks generalizing bench with
  | zero => exact fun _ hmem => absurd hmem List.not_mem_nil
  | succ asks ih =>
      unfold askScope
      split
      · exact fun _ hmem => absurd hmem List.not_mem_nil
      · split
        · exact List.forall_mem_singleton.mpr (not_lasts_status _ (by decide))
        · exact ih _

/-- What collecting tells does not stay, and the end of the newest query is part of it
    when its result is on the queue and can be told. -/
theorem drain_ends (bench : Workbench) (hnodup : (bench.results.map (·.1)).Nodup) :
    (∀ notice ∈ bench.drain.notices, ¬ notice.Lasts)
      ∧ ∀ result notice, (bench.latest, result) ∈ bench.results → ending result = .ok notice →
        notice ∈ bench.drain.notices := by
  rcases drain_tells bench hnodup with ⟨hmissing, hdrain⟩ | ⟨older, newest, newer, hresults, hends⟩
  · rw [hdrain]
    refine ⟨fun _ hmem => absurd hmem List.not_mem_nil, fun result notice hmem _ => ?_⟩
    exact absurd (List.mem_map.mpr ⟨_, hmem, rfl⟩) hmissing
  · -- The newest query has one result on the queue.
    have hnewest : (bench.latest, newest) ∈ bench.results := by
      rw [hresults]
      exact List.mem_append_right older List.mem_cons_self
    have honly : ∀ other, (bench.latest, other) ∈ bench.results → other = newest :=
      fun other hmem => (Prod.mk.inj (List.inj_on_of_nodup_map hnodup hmem hnewest rfl)).2
    rcases hends with ⟨notice, hending, htold, _, hquiet⟩ | ⟨answer, rfl, hnot, hdrain⟩
    · refine ⟨hquiet, fun other told hmem htelling => ?_⟩
      rw [honly other hmem, hending] at htelling
      exact Except.ok.inj htelling ▸ htold
    · rw [hdrain]
      refine ⟨fun _ hmem => absurd hmem List.not_mem_nil, fun other told hmem htelling => ?_⟩
      rw [honly other hmem] at htelling
      exact absurd ((ending_ok_iff _).mp ⟨told, htelling⟩ answer rfl) hnot

/-- Only a query that is taken puts a status up that stays. When the newest query's
    result is taken off the queue, its end is told if it can be. -/
theorem perform_tells (bench : Workbench) (action : Action) (hopen : bench.closed = false)
    (hnodup : (bench.results.map (·.1)).Nodup) :
    (∃ invocation,
        Moves bench (bench.perform action).state [(bench.latest + 1, invocation)] [] []
          ∧ (bench.perform action).notices = [running invocation])
      ∨ ∃ removed shown, Moves bench (bench.perform action).state [] removed shown
        ∧ (∀ notice ∈ (bench.perform action).notices, ¬ notice.Lasts)
        ∧ ∀ result notice, (bench.latest, result) ∈ removed → ending result = .ok notice →
          notice ∈ (bench.perform action).notices := by
  have hnone : ∀ notices : List Notice, ∀ result notice,
      (bench.latest, result) ∈ ([] : List (Nat × Except Failure RunResult)) →
      ending result = .ok notice → notice ∈ notices :=
    fun _ _ _ hmem => absurd hmem List.not_mem_nil
  cases action with
  | query mode target =>
      rcases run_moves bench mode target hopen with
        h | ⟨hmoves, hnotices | ⟨text, duration, hduration, hnotices⟩⟩
      · exact Or.inl h
      · refine Or.inr ⟨[], [], hmoves, ?_, hnone _⟩
        rw [perform, Outcome.void, hnotices]
        exact fun _ hmem => absurd hmem List.not_mem_nil
      · refine Or.inr ⟨[], [], hmoves, ?_, hnone _⟩
        rw [perform, Outcome.void, hnotices]
        exact List.forall_mem_singleton.mpr (not_lasts_status text hduration)
  | work count =>
      rcases work_ran bench count with
        ⟨done, waiting, answers, hwaiting, hnumbers, hanswers, halike⟩
      exact Or.inr ⟨[], [], .ran done waiting answers hwaiting hnumbers hanswers halike,
        fun _ hmem => absurd hmem List.not_mem_nil, hnone _⟩
  | gesture gesture =>
      refine Or.inr ⟨[], [], (react_moves bench gesture).1, ?_, hnone _⟩
      simp only [perform, react, Outcome.tell]
      cases (bench.panel.react gesture).2 with
      | none => exact fun _ hmem => absurd hmem List.not_mem_nil
      | some location => exact activate_not_lasts _ _ _ _
  | setScope =>
      exact Or.inr ⟨[], [], .idle (askScope_moves _ _ bench).1, askScope_not_lasts _ _ bench,
        hnone _⟩
  | configure values =>
      refine Or.inr ⟨[], [], .idle (configure_moves bench values).1, ?_, hnone _⟩
      rw [perform, configure_notices]
      exact fun _ hmem => absurd hmem List.not_mem_nil
  | meanwhile host user =>
      exact Or.inr ⟨[], [], .idle ⟨rfl, rfl, rfl, rfl, rfl, rfl⟩,
        fun _ hmem => absurd hmem List.not_mem_nil, hnone _⟩
  | drain =>
      rcases drain_drains bench hnodup with ⟨removed, shown, hdrains, _⟩
      have hmoves : Moves bench (bench.perform .drain).state [] removed shown := .drained hdrains
      have hends := drain_ends bench hnodup
      exact Or.inr ⟨removed, shown, hmoves, hends.1, fun result notice hmem =>
        hends.2 result notice (List.mem_of_mem_take (hmoves.removed_eq ▸ hmem))⟩

theorem Moves.latest_eq {bench after : Workbench} {taken : List (Nat × Invocation)}
    {removed : List (Nat × Except Failure RunResult)} {shown : List RunResult}
    (h : Moves bench after taken removed shown) : after.latest = bench.latest + taken.length := by
  cases h with
  | idle h => exact h.latest
  | took invocation _ h => exact h.latest
  | ran done waiting answers _ _ _ h => exact h.latest
  | drained h =>
      cases h with
      | dropped results _ _ _ h => exact h.latest
      | presented results _ _ _ _ _ _ h => exact h.latest

end Workbench

/-! ## What a run tells -/

namespace Chronicle

open Workbench (Moves running ending told)

/-- Of all that was told, the newest query's status is the last one that stays, and
    its end was told after it if its result is off the queue and can be told. -/
def Announces (log : Chronicle) (notices : List Notice) : Prop :=
  log.taken = [] ∨ ∃ invocation before after,
    log.taken.getLast? = some (log.bench.latest, invocation)
      ∧ notices = before ++ running invocation :: after
      ∧ (∀ notice ∈ after, ¬ notice.Lasts)
      ∧ ∀ result notice, (log.bench.latest, result) ∈ log.collected →
        ending result = .ok notice → notice ∈ after

variable {log : Chronicle}

/-- An action keeps the order of what was told. -/
theorem announces_step (hsound : log.Sound) {notices : List Notice} (h : log.Announces notices)
    (action : Action) :
    (log.step action).Announces (notices ++ (log.bench.perform action).notices) := by
  rcases Workbench.perform_tells log.bench action hsound.opened hsound.nodup_results with
    ⟨invocation, hmoves, htold⟩ | ⟨removed, shown, hmoves, hquiet, hends⟩
  · -- The status of the query just taken is the last of all.
    rw [htold]
    refine Or.inr ⟨invocation, notices, [], ?_, rfl, fun _ hmem => absurd hmem List.not_mem_nil, ?_⟩
    · simp only [step, hmoves.taken_eq, hmoves.latest_eq, List.getLast?_concat,
        List.length_singleton]
    · simp only [step, hmoves.removed_eq, hmoves.latest_eq, List.append_nil, List.length_singleton]
      intro result notice hmem
      have hle := hsound.number_le _ _ (List.mem_append_left _ hmem)
      exact absurd hle (Nat.not_succ_le_self _)
  · have hlatest := hmoves.latest_eq
    rw [List.length_nil, Nat.add_zero] at hlatest
    simp only [Announces, step, hmoves.taken_eq, hmoves.removed_eq, hlatest, List.append_nil]
    rcases h with hnone | ⟨invocation, before, after, hlast, hnotices, hafter, hended⟩
    · exact Or.inl hnone
    · refine Or.inr ⟨invocation, before, after ++ (log.bench.perform action).notices, hlast, ?_, ?_,
        ?_⟩
      · rw [hnotices, List.append_assoc, List.cons_append]
      · intro notice hmem
        exact (List.mem_append.mp hmem).elim (hafter notice) (hquiet notice)
      · intro result notice hmem hending
        rcases List.mem_append.mp hmem with hmem | hmem
        · exact List.mem_append_left _ (hended result notice hmem hending)
        · exact List.mem_append_right _ (hends result notice hmem hending)

theorem Announces.foldl {notices : List Notice} (h : log.Announces notices) (hsound : log.Sound)
    (actions : List Action) :
    (actions.foldl step log).Announces (notices ++ told log.bench actions) := by
  induction actions generalizing log notices with
  | nil =>
      rw [told, List.append_nil]
      exact h
  | cons action actions ih =>
      rw [told, ← List.append_assoc]
      exact ih (announces_step hsound h action) (sound_step hsound action)

/-- In every run the newest query's status is the last one that stays, and its end
    comes after it. -/
theorem announces_follow (bench : Workbench) (h : bench.Unused) (actions : List Action) :
    (bench.follow actions).Announces (bench.told actions) := by
  have hstart : Announces ⟨bench, [], [], []⟩ [] := Or.inl rfl
  exact hstart.foldl (sound_start bench h) actions

end Chronicle

namespace Workbench

/-- Collecting leaves no result on the queue in any run, also when it fails: no later
    query's result can be there. -/
theorem drain_empties {log : Chronicle} (hsound : log.Sound) :
    log.bench.drain.state.results = [] := by
  rcases drain_tells log.bench hsound.nodup_results with
    ⟨_, hdrain⟩ | ⟨older, newest, newer, hresults, hends⟩
  · rw [hdrain]
    rfl
  · rcases hends with ⟨notice, _, _, hok, _⟩ | ⟨answer, _, _, hdrain⟩
    · exact drain_results log.bench hsound.nodup_results
        ((drain_ok_iff log.bench hsound.nodup_results).mp hok)
    · rw [hdrain]
      cases newer with
      | nil => rfl
      | cons later newer =>
          -- A result after the newest query's would have a greater number.
          have hnumbers : (log.bench.results.map (·.1)).Pairwise (· < ·) := by
            refine (List.pairwise_lt_range' (s := 1) (n := log.bench.latest)).sublist ?_
            rw [← hsound.ordered, List.append_assoc]
            exact (List.sublist_append_left _ _).trans (List.sublist_append_right _ _)
          rw [hresults, List.map_append, List.map_cons, List.map_cons] at hnumbers
          have hlater : log.bench.latest < later.1 :=
            List.rel_of_pairwise_cons (List.pairwise_append.mp hnumbers).2.1 List.mem_cons_self
          have hle := hsound.number_le later.1 later.2 (List.mem_append_right _ (by
            rw [hresults]
            exact List.mem_append_right _ (List.mem_cons_of_mem _ List.mem_cons_self)))
          exact absurd hle (Nat.not_le_of_lt hlater)

/-- Collecting leaves the queue empty in every run. It goes well unless the newest
    query's result is there and a marker in its output has a number that is too long;
    then it fails and tells nothing. Once the newest query's result is off the queue,
    and has no such marker, a status that ends the query was told after the one that
    it is running, and no other came since that would stay. -/
theorem newest_query_ends (bench : Workbench) (h : bench.Unused) (actions : List Action) :
    let log := bench.follow actions
    log.bench.drain.state.results = []
      ∧ (log.bench.drain.result = .ok () ↔
        ∀ result, (log.bench.latest, .ok result) ∈ log.bench.results → result.output.ShortMarkers)
      ∧ (log.bench.drain.result ≠ .ok () →
        log.bench.drain.result = .error .longNumeral ∧ log.bench.drain.notices = [])
      ∧ ∀ result, (log.bench.latest, result) ∈ log.collected →
        (∀ answer, result = .ok answer → answer.output.ShortMarkers) →
        ∃ invocation before after notice,
          log.taken.getLast? = some (log.bench.latest, invocation)
            ∧ bench.told actions = before ++ running invocation :: after
            ∧ (∀ other ∈ after, ¬ other.Lasts)
            ∧ ending result = .ok notice ∧ notice ∈ after := by
  intro log
  have hsound : log.Sound := Chronicle.sound_follow bench h actions
  have hnodup := hsound.nodup_results
  refine ⟨drain_empties hsound, drain_ok_iff log.bench hnodup, drain_failed log.bench hnodup, ?_⟩
  intro result hcollected hshort
  rcases Chronicle.announces_follow bench h actions with
    hnone | ⟨invocation, before, after, hlast, hnotices, hquiet, hended⟩
  · -- A result that was collected has the number of a query that was taken.
    have hnumber : log.bench.latest ∈ log.taken.map (·.1) := by
      rw [hsound.numbered, ← hsound.ordered, ← List.map_append]
      exact List.mem_append_left _ (List.mem_map.mpr
        ⟨_, List.mem_append_left log.bench.results hcollected, rfl⟩)
    rw [show log.taken = [] from hnone] at hnumber
    exact absurd hnumber List.not_mem_nil
  · rcases (ending_ok_iff result).mpr hshort with ⟨notice, hending⟩
    exact ⟨invocation, before, after, notice, hlast, hnotices, hquiet, hending,
      hended result notice hcollected hending⟩

/-- A query that ran and was collected is told to have ended. -/
theorem query_ends_found :
    let actions := [askAbout "/a/x.go", .work 1, .drain]
    let bench := twoFiles ["z.go:1:2: found\n"]
    ∃ invocation before after, bench.told actions = before ++ running invocation :: after
      ∧ .status "Describe: 1 location(s)." shortWhile ∈ after := by
  intro actions bench
  have hcollected : (bench.follow actions).collected.map
      (fun entry => (entry.1, (ending entry.2).toOption))
      = [((bench.follow actions).bench.latest,
        some (.status "Describe: 1 location(s)." shortWhile))] := by
    decide +kernel
  rcases List.map_eq_singleton_iff.mp hcollected with ⟨⟨number, result⟩, hentry, heq⟩
  have hnumber : number = (bench.follow actions).bench.latest := (Prod.mk.inj heq).1
  have hend := (Prod.mk.inj heq).2
  cases hending : ending result with
  | error failure =>
      rw [hending] at hend
      exact absurd hend (by simp only [Except.toOption, reduceCtorEq, not_false_eq_true])
  | ok notice =>
      rw [hending] at hend
      rcases (newest_query_ends bench (unused_twoFiles _) actions).2.2.2 result
          (by rw [hentry, hnumber]; exact List.mem_cons_self)
          ((ending_ok_iff result).mp ⟨notice, hending⟩)
        with ⟨invocation, before, after, told, _, htold, _, htelling, hmem⟩
      rw [hending] at htelling
      exact ⟨invocation, before, after, htold,
        Option.some.inj hend ▸ Except.ok.inj htelling ▸ hmem⟩

/-- A tool that exits gives a result with the text of what it wrote, when the toolchain is
    known. -/
theorem execute_exited (invoker : Invoker) (host : Host) (invocation : Invocation)
    (toolchain : Toolchain) (code : Int) (output errors : Bytes) (outcomes : List LaunchOutcome)
    (hsource : invoker.source = .fixed toolchain)
    (houtcomes : host.outcomes = .exited code output errors :: outcomes) :
    ∃ answer, (invoker.execute host invocation).1 = .ok answer
      ∧ answer.output = Text.normalizeBreaks (Utf8.decodeLossy output) := by
  have hlaunch : ∀ (invoker : Invoker) (invocation : Invocation),
      ∃ answer, (invoker.launch host invocation).1 = .ok answer
        ∧ answer.output = Text.normalizeBreaks (Utf8.decodeLossy output) := by
    intro invoker invocation
    simp only [Invoker.launch, Host.launch, houtcomes]
    exact ⟨_, rfl, rfl⟩
  unfold Invoker.execute
  split
  · cases hkept : invoker.kept with
    | some kept =>
        simp only [Invoker.toolchain, hkept]
        exact hlaunch _ _
    | none =>
        simp only [Invoker.toolchain, hkept, hsource, ToolchainSource.get]
        exact hlaunch _ _
  · exact hlaunch _ _

/-- Output that begins with a marker whose line is written with as many digits. -/
def manyDigits (count : Nat) : Text :=
  "a.go:" ++ List.replicate count '1' ++ ":1: x"

theorem match_manyDigits (count : Nat) (h : count ≠ 0) :
    ∃ length, Marker.match? (manyDigits count)
      = some ⟨"a.go", ⟨List.replicate count '1', "1"⟩, none, length⟩ := by
  have hrun : ∀ n, n ≠ 0 → Marker.IsRun (List.replicate n '1') := by
    intro n hn
    refine ⟨fun hnil => hn ((List.replicate_eq_nil_iff _).mp hnil), fun c hc => ?_⟩
    rw [List.eq_of_mem_replicate hc]
    decide
  have hcolumn : Marker.IsRun "1" := hrun 1 Nat.one_ne_zero
  have hpath : Marker.IsPath "a.go" := ⟨⟨'a', ".go", rfl, by decide⟩, by decide, by decide⟩
  have hbegins : Marker.Spelling.Begins ⟨"a.go", ⟨⟨List.replicate count '1', "1"⟩, ':'⟩, none⟩
      (manyDigits count) " x" := by
    refine ⟨⟨hpath, List.forall_mem_singleton.mpr ⟨hrun count h, hcolumn, Or.inl rfl⟩⟩, ?_⟩
    rw [Marker.Spelling.text_append, Marker.SpelledPair.text, List.append_assoc]
    rfl
  exact ⟨_, (Marker.match?_eq_some_iff _ _).mpr ⟨_, _, hbegins, rfl⟩⟩

theorem manyDigits_plain (count : Nat) : ∀ c ∈ manyDigits count, Text.isLineBreak c = false := by
  intro c hc
  rcases List.mem_append.mp hc with hc | hc
  · rcases List.mem_append.mp hc with hc | hc
    · exact Text.not_isLineBreak_of_any (by decide) c hc
    · rw [List.eq_of_mem_replicate hc]
      decide
  · exact Text.not_isLineBreak_of_any (by decide) c hc

theorem not_shortMarkers_manyDigits : ¬ (manyDigits 4301).ShortMarkers := by
  intro hshort
  rcases match_manyDigits 4301 (by decide) with ⟨length, hmatch⟩
  have hne : manyDigits 4301 ≠ [] := List.append_ne_nil_of_right_ne_nil _ (by decide)
  have hline : manyDigits 4301 ∈ Text.lines (manyDigits 4301) := by
    rw [Text.lines_eq_singleton _ hne (manyDigits_plain 4301)]
    exact List.mem_singleton_self _
  have hmarker := hshort _ hline _ hmatch
  simp only [Marker.isShort, Text.isShortNumeral, List.length_replicate, Bool.and_eq_true,
    decide_eq_true_eq] at hmarker
  exact absurd hmarker.1.1 (by decide)

-- The only query taken is run, and its output cannot be shown.
theorem manyDigits_untold (bench : Workbench) (ask : Action) (host : Host) (user : User)
    (invocation : Invocation) (toolchain : Toolchain)
    (hwaiting : (bench.perform ask).state.waiting
      = [((bench.perform ask).state.latest, invocation)])
    (hresults : (bench.perform ask).state.results = [])
    (hsource : (bench.perform ask).state.invoker.source = .fixed toolchain)
    (houtcomes : host.outcomes = [.exited 0 (Utf8.encode (manyDigits 4301)) []]) :
    let actions := [ask, .meanwhile host user, .work 1]
    (bench.follow actions).bench.drain.result = .error .longNumeral
      ∧ bench.told (actions ++ [.drain]) = (bench.perform ask).notices := by
  intro actions
  let last := (bench.follow actions).bench
  rcases execute_exited (bench.perform ask).state.invoker host invocation _ 0 _ [] [] hsource
    houtcomes with ⟨answer, hanswer, houtput⟩
  have hlast : last.latest = (bench.perform ask).state.latest
      ∧ last.results = [((bench.perform ask).state.latest, .ok answer)] := by
    have hwork : last = ({ (bench.perform ask).state with host, user } : Workbench).work 1 := rfl
    rw [hwork]
    simp only [work, hwaiting, hanswer, hresults, List.nil_append, and_self]
  have hnodup : (last.results.map (·.1)).Nodup := by
    rw [hlast.2]
    exact List.nodup_singleton _
  have hfailed : last.drain.result = .error .longNumeral ∧ last.drain.notices = [] := by
    refine drain_failed last hnodup fun hok => ?_
    have hshort := (drain_ok_iff last hnodup).mp hok answer (by
      rw [hlast.1, hlast.2]
      exact List.mem_cons_self)
    have hreturn : '\r' ∉ manyDigits 4301 := fun hmem =>
      absurd (manyDigits_plain 4301 '\r' hmem) (by decide)
    rw [houtput, Utf8.decodeLossy_encode, Text.normalizeBreaks_eq_self _ hreturn] at hshort
    exact not_shortMarkers_manyDigits hshort
  refine ⟨hfailed.1, ?_⟩
  have htold : bench.told (actions ++ [.drain])
      = (bench.perform ask).notices ++ ([] ++ ([] ++ (last.drain.notices ++ []))) := rfl
  rw [htold, hfailed.2]
  exact List.append_nil _

/-- Output with a number that is too long is collected as the newest query's result. The
    collecting fails, and in the whole run it is only told that the query is running. -/
theorem long_number_untold :
    let bench := twoFiles []
    let actions := [askAbout "/a/x.go",
      .meanwhile (twoFiles [manyDigits 4301]).host ⟨[], []⟩, .work 1]
    (bench.follow actions).bench.drain.result = .error .longNumeral
      ∧ bench.told (actions ++ [.drain]) = [.status "Running oracle: Describe..." 0] := by
  intro bench actions
  have hwaiting : (bench.perform (askAbout "/a/x.go")).state.waiting.map (·.1)
      = [(bench.perform (askAbout "/a/x.go")).state.latest] := by decide +kernel
  have hresults : (bench.perform (askAbout "/a/x.go")).state.results.map (·.1) = [] := by
    decide +kernel
  have hsource : (bench.perform (askAbout "/a/x.go")).state.invoker.source
      = .fixed ⟨"/go", [], []⟩ := by decide +kernel
  have hasked : (bench.perform (askAbout "/a/x.go")).notices
      = [.status "Running oracle: Describe..." 0] := by decide +kernel
  rcases List.map_eq_singleton_iff.mp hwaiting with ⟨⟨number, invocation⟩, hwaits, hnumber⟩
  have huntold := manyDigits_untold bench (askAbout "/a/x.go")
    (twoFiles [manyDigits 4301]).host ⟨[], []⟩ invocation _ (by rw [hwaits, ← hnumber])
    (List.map_eq_nil_iff.mp hresults) hsource rfl
  rw [hasked] at huntold
  exact huntold

end Workbench

end QueryDesk
