import QueryDesk.Proofs.Desk.Chronicle
import QueryDesk.Proofs.Query.Document

/-!
# The newest query's result

Results come in the order in which queries were taken, but queries go on being
taken while results wait, so a result that is collected can be out of date. What
keeps the panel on the newest query is the number: a result is shown only when no
later query has been taken, and since every number is used once, none is shown
again. When the newest query's result is off the queue it is what the panel
shows, whatever was shown before.

## Theorems

* `Sound.step_shown`: What is shown has the newest number, which only grows.
* `Sound.shown_of_older`: What was out of date is never shown later.
* `drain_results`: Collecting leaves no result on the queue.
* `drain_panel`: A drain changes the panel only to the newest query's result.
* `newest_result_shown`: What the panel shows in every run.
-/

namespace QueryDesk

namespace Chronicle

variable {log : Chronicle}

/-- An action shows only results under the newest number. -/
theorem Sound.step_shown (h : log.Sound) (action : Action) :
    log.bench.latest ≤ (log.step action).bench.latest
      ∧ ∃ shown : List RunResult, (log.step action).shown
        = log.shown ++ shown.map fun result => (log.bench.latest, result) := by
  rcases h.step_eq action with ⟨taken, removed, shown, hmoves, hstep⟩
  rw [hstep]
  refine ⟨?_, shown, rfl⟩
  cases hmoves with
  | idle halike => exact Nat.le_of_eq halike.latest.symm
  | took invocation _ halike =>
      rw [halike.latest]
      exact Nat.le_succ _
  | ran done waiting answers _ _ _ halike => exact Nat.le_of_eq halike.latest.symm
  | drained hdrains =>
      cases hdrains with
      | dropped results _ _ _ halike => exact Nat.le_of_eq halike.latest.symm
      | presented results _ _ _ _ _ _ halike => exact Nat.le_of_eq halike.latest.symm

/-- What was out of date before a run is not shown in it. -/
theorem Sound.shown_of_older (h : log.Sound) (actions : List Action) (number : Nat)
    (result : RunResult) (holder : number < log.bench.latest)
    (hshown : (number, result) ∈ (actions.foldl step log).shown) :
    (number, result) ∈ log.shown := by
  induction actions generalizing log with
  | nil => exact hshown
  | cons action actions ih =>
      rcases h.step_shown action with ⟨hlatest, shown, hstep⟩
      have hmem := ih (sound_step h action) (Nat.lt_of_lt_of_le holder hlatest) hshown
      rw [hstep] at hmem
      rcases List.mem_append.mp hmem with hmem | hmem
      · exact hmem
      · rcases List.mem_map.mp hmem with ⟨answer, _, heq⟩
        exact absurd (Prod.mk.inj heq).1 (Nat.ne_of_gt holder)

-- No number is shown twice.
theorem Sound.nodup_shown (h : log.Sound) : (log.shown.map (·.1)).Nodup := by
  have hnumbers : log.shown.map (·.1)
      = (log.shown.map fun entry => (entry.1, (Except.ok entry.2 : Except Failure RunResult))).map
        (·.1) := by
    rw [List.map_map]
    rfl
  rw [hnumbers]
  exact (List.nodup_append.mp (List.nodup_append.mp h.nodup).1).1.sublist (h.shown.map _)

theorem Sound.answered_shown (h : log.Sound) (number : Nat) (result : RunResult)
    (hshown : (number, result) ∈ log.shown) :
    ∃ invocation, (number, invocation) ∈ log.taken ∧ result.Answers invocation := by
  refine h.answered number result (List.mem_append_left _ (h.shown.subset ?_))
  exact List.mem_map.mpr ⟨(number, result), hshown, rfl⟩

theorem Sound.unique_taken (h : log.Sound) (number : Nat) (first second : Invocation)
    (hfirst : (number, first) ∈ log.taken) (hsecond : (number, second) ∈ log.taken) :
    first = second := by
  have hnodup : (log.taken.map (·.1)).Nodup := by
    rw [h.numbered]
    exact List.nodup_range'
  exact (Prod.mk.inj (List.inj_on_of_nodup_map hnodup hfirst hsecond rfl)).2

-- The query taken last is the one with the newest number.
theorem Sound.getLast_taken (h : log.Sound) (invocation : Invocation)
    (hmem : (log.bench.latest, invocation) ∈ log.taken) :
    log.taken.getLast? = some (log.bench.latest, invocation) := by
  have hlast : (log.taken.map (·.1)).getLast? = some log.bench.latest := by
    have hrange : log.bench.latest ∈ List.range' 1 log.bench.latest := by
      rw [← h.numbered]
      exact List.mem_map_of_mem hmem
    rw [List.mem_range'_1] at hrange
    rw [h.numbered, List.getLast?_range']
    rw [if_neg (by omega)]
    exact congrArg some (by omega)
  rw [List.getLast?_map, Option.map_eq_some_iff] at hlast
  rcases hlast with ⟨⟨number, last⟩, hlast, hnumber⟩
  simp only at hnumber
  rw [hlast, hnumber, h.unique_taken number last invocation (List.mem_of_getLast? hlast)
    (hnumber ▸ hmem)]

end Chronicle

namespace Workbench

-- A failure can always be told, and an output when its markers can be read.
theorem conclude_ok (bench : Workbench) (result : Except Failure RunResult)
    (hshort : ∀ answer, result = .ok answer → answer.output.ShortMarkers) :
    (bench.conclude result).result = .ok () := by
  cases result with
  | error failure =>
      unfold conclude report
      simp only
      split <;> rfl
  | ok answer =>
      rcases (Annotator.annotate_ok_iff Annotator.standard answer.output).mpr
        (hshort answer rfl) with ⟨document, hdocument⟩
      simp only [conclude, hdocument]
      rfl

/-- Collecting leaves no result on the queue, unless the newest query's output has
    a marker with a number that is too long. -/
theorem drain_results (bench : Workbench) (hnodup : (bench.results.map (·.1)).Nodup)
    (hshort : ∀ result, (bench.latest, .ok result) ∈ bench.results → result.output.ShortMarkers) :
    bench.drain.state.results = [] := by
  rcases drain_cases bench hnodup with ⟨_, hdrain⟩ | ⟨older, result, newer, hresults, hdrain⟩
  · rw [hdrain]
    rfl
  · have hok := conclude_ok { bench with results := newer } result fun answer hanswer => by
      refine hshort answer ?_
      rw [hresults, hanswer]
      exact List.mem_append_right older List.mem_cons_self
    simp only [hdrain, Outcome.andThen, hok, Outcome.pure]

/-- A drain changes the panel only to what the newest query gave. -/
theorem drain_panel (bench : Workbench) (hnodup : (bench.results.map (·.1)).Nodup) :
    bench.drain.state.panel = bench.panel
      ∨ ∃ result document, (bench.latest, .ok result) ∈ bench.results
        ∧ Annotator.standard.annotate (.ofText result.output) = .ok document
        ∧ bench.drain.state.panel = bench.panel.present document (summary result document) := by
  rcases drain_drains bench hnodup with ⟨removed, shown, hdrains, _⟩
  cases hdrains with
  | dropped results _ _ hpanel _ => exact Or.inl hpanel
  | presented results result document hresults hnewest hdocument hpanel _ =>
      refine Or.inr ⟨result, document, ?_, hdocument, hpanel⟩
      rw [hresults]
      exact List.mem_append_left results hnewest

-- A result that was collected, found by its number and its output.
theorem exists_collected {collected : List (Nat × Except Failure RunResult)} {number : Nat}
    {output : Text} (h : (number, some output)
      ∈ collected.map fun entry => (entry.1, entry.2.toOption.map (·.output))) :
    ∃ result, (number, .ok result) ∈ collected ∧ result.output = output := by
  rcases List.mem_map.mp h with ⟨⟨other, result⟩, hentry, heq⟩
  rcases Prod.mk.inj heq with ⟨rfl, houtput⟩
  cases result with
  | error failure => exact absurd houtput.symm (Option.some_ne_none output)
  | ok result => exact ⟨result, hentry, Option.some.inj houtput⟩

/-- What the panel shows in every run. A drain changes it only to what the newest
    query gave, and leaves it when that query failed. A result that a later query
    has made out of date is never shown from then on, and none is shown twice.
    Once the newest query's result is off the queue, it is all that the panel
    shows. -/
theorem newest_result_shown (bench : Workbench) (h : bench.Unused) (actions more : List Action) :
    let log := bench.follow actions
    log.taken.map (·.1) = List.range' 1 log.bench.latest
      ∧ (log.bench.drain.state.panel = log.bench.panel
        ∨ ∃ invocation result document,
          log.taken.getLast? = some (log.bench.latest, invocation)
            ∧ result.Answers invocation
            ∧ (log.bench.latest, .ok result) ∈ log.bench.results
            ∧ Annotator.standard.annotate (.ofText result.output) = .ok document
            ∧ log.bench.drain.state.panel
              = log.bench.panel.present document (summary result document))
      ∧ (∀ number result, (number, result) ∈ (bench.follow (actions ++ more)).shown →
        number < log.bench.latest → (number, result) ∈ log.shown)
      ∧ (∀ number result, (number, result) ∈ log.shown →
        ∃ invocation, (number, invocation) ∈ log.taken ∧ result.Answers invocation)
      ∧ (log.shown.map (·.1)).Nodup
      ∧ (∀ failure, (log.bench.latest, .error failure) ∈ log.bench.results →
        log.bench.drain.state.panel = log.bench.panel)
      ∧ ((∀ result, (log.bench.latest, .ok result) ∈ log.bench.results →
        result.output.ShortMarkers) → log.bench.drain.state.results = [])
      ∧ (∀ result, (log.bench.latest, .ok result) ∈ log.collected → result.output.ShortMarkers →
        ∃ document, Annotator.standard.annotate (.ofText result.output) = .ok document
          ∧ log.bench.panel.sight = Panel.sightOf document (summary result document)) := by
  intro log
  have hsound : log.Sound := Chronicle.sound_follow bench h actions
  refine ⟨hsound.numbered, ?_, ?_, hsound.answered_shown, hsound.nodup_shown, ?_,
    drain_results log.bench hsound.nodup_results, ?_⟩
  · rcases drain_panel log.bench hsound.nodup_results with
      hpanel | ⟨result, document, hmem, hdocument, hpanel⟩
    · exact Or.inl hpanel
    · rcases hsound.answered _ result (List.mem_append_right _ hmem) with
        ⟨invocation, htaken, hanswers⟩
      exact Or.inr ⟨invocation, result, document, hsound.getLast_taken invocation htaken, hanswers,
        hmem, hdocument, hpanel⟩
  · intro number result hshown holder
    rw [Chronicle.follow_append] at hshown
    exact hsound.shown_of_older more number result holder hshown
  · intro failure hfailed
    rcases drain_panel log.bench hsound.nodup_results with hpanel | ⟨result, _, hmem, _⟩
    · exact hpanel
    · -- The newest query has one result, and it is the failure.
      have hsame := hsound.unique _ _ _ (List.mem_append_right log.collected hfailed)
        (List.mem_append_right log.collected hmem)
      exact absurd hsame (by simp only [reduceCtorEq, not_false_eq_true])
  · intro result hcollected hshort
    rcases (Annotator.annotate_ok_iff Annotator.standard result.output).mpr hshort with
      ⟨document, hdocument⟩
    exact ⟨document, hdocument, hsound.sight_newest hcollected hdocument⟩

/-- Of two results collected at once, the newer one is all that is shown. -/
theorem newer_of_two_shown :
    let actions := [askAbout "/a/x.go", .work 1, askAbout "/b/y.go", .work 1, .drain]
    let log := (twoFiles ["old\n", "z.go:1:2: new\n"]).follow actions
    log.shown.map (·.1) = [2] ∧ log.bench.panel.text = "Go Oracle\n▶ new\n"
      ∧ ∃ result document, result.output = ("z.go:1:2: new\n" : Text)
        ∧ Annotator.standard.annotate (.ofText result.output) = .ok document
        ∧ log.bench.panel.sight = Panel.sightOf document (summary result document) := by
  intro actions log
  have hcollected : log.collected.map (fun entry => (entry.1, entry.2.toOption.map (·.output)))
      = [(1, some ("old\n" : Text)), (2, some ("z.go:1:2: new\n" : Text))] := by
    decide +kernel
  have hlatest : log.bench.latest = 2 := by decide +kernel
  have hmem : (2, some ("z.go:1:2: new\n" : Text))
      ∈ log.collected.map fun entry => (entry.1, entry.2.toOption.map (·.output)) := by
    rw [hcollected]
    exact List.mem_cons_of_mem _ List.mem_cons_self
  rcases exists_collected hmem with ⟨result, hentry, houtput⟩
  have hshort : result.output.ShortMarkers := by
    rw [houtput]
    exact (Annotator.annotate_ok_iff Annotator.standard _).mp ⟨_, rfl⟩
  rcases (newest_result_shown _ (unused_twoFiles _) actions []).2.2.2.2.2.2.2 result
    (by rw [hlatest]; exact hentry) hshort with ⟨document, hdocument, hsight⟩
  exact ⟨by decide +kernel, by decide +kernel, result, document, houtput, hdocument, hsight⟩

end Workbench

end QueryDesk
