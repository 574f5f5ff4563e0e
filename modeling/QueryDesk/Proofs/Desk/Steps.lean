import QueryDesk.Desk.Workbench
import QueryDesk.Proofs.Desk.Buffer
import QueryDesk.Proofs.Query.Executed
import QueryDesk.Proofs.Query.Prepared

/-!
# What a step of the workbench does

Each operation of a workbench does one of five things to its queries and to what
its panel shows. It leaves them all as they are; it takes one query; it moves
some queries from those that wait to the results; it takes some results off the
queue and shows none; or it takes some off and shows the newest query's. This is
said here once for every operation, so that an invariant of the queries has these
cases and not one for each way through each operation.

Everything a panel shows is its text, its annotations and its status. The cursor
in it, the shape of the mouse and the number of lines it would like to have are
not part of that, and it is all that gestures and settings change.

## Main definitions

* `Panel.Sight`: What a panel shows.
* `RunResult.Answers`: A result that came of a query.
* `Notice.finished?`, `finishedIn`: The results that notices say were shown.
* `Action`, `Workbench.perform`: What can be done to an open workbench.
* `Workbench.Drains`: What collecting does to the results and to what is shown.
* `Workbench.Moves`: What an action does to the queries and to what is shown.

## Theorems

* `execute_answers`: A launch gives a result of the query that was launched.
* `run_moves`: A query is taken, or nothing happens to the others.
* `work_ran`: Queries are run in the order in which they wait.
* `drain_cases`: Collecting comes to the newest query's result, or to none of its.
* `drain_drains`: Collecting shows the newest query's result or none.
* `perform_moves`: Every action does one of the five things.
-/

namespace QueryDesk

/-! ## What a panel shows -/

/-- What a panel shows: its text, its annotations and its status. -/
structure Panel.Sight where
  content : Text
  annotations : List (Nat × Annotation)
  status : Text
  deriving DecidableEq, Repr

namespace Panel

/-- What the panel shows. -/
def sight (panel : Panel) : Sight :=
  ⟨panel.view.content, panel.annotations, panel.status⟩

/-- What a panel shows of a document with a summary. -/
def sightOf (document : Document) (summary : Text) : Sight where
  content := Buffer.broken (textOf document)
  annotations := document.annotations.map fun (row, annotation) => (row + 1, annotation)
  status := summary.orElse (countText document.annotations.length)

-- A gesture changes nothing of what is shown.
theorem sight_after (panel : Panel) (gesture : Gesture) :
    (panel.after gesture).sight = panel.sight := by
  cases gesture with
  | select start stop =>
      change Sight.mk (panel.view.select start stop).content _ _ = _
      rw [Buffer.select_content]
      rfl
  | release button block column => rfl
  | doubleClick block column => rfl
  | move block column => rfl
  | key isEnter => rfl

end Panel

/-! ## Results and notices -/

/-- The result came of the query. Only the variables for the tool can be others,
    since a query has none of its own. -/
def RunResult.Answers (result : RunResult) (invocation : Invocation) : Prop :=
  result.invocation = { invocation with extra := result.invocation.extra }

theorem RunResult.Answers.position {result : RunResult} {invocation : Invocation}
    (h : result.Answers invocation) : result.invocation.position = invocation.position := by
  rw [h]

/-- The result that a notice says was shown. -/
def Notice.finished? : Notice → Option RunResult
  | .finished result => some result
  | _ => none

/-- The results that notices say were shown. -/
def finishedIn (notices : List Notice) : List RunResult :=
  notices.filterMap Notice.finished?

theorem finishedIn_append (first second : List Notice) :
    finishedIn (first ++ second) = finishedIn first ++ finishedIn second :=
  List.filterMap_append

/-- A launch gives a result of the query that was launched. -/
theorem Invoker.execute_answers (invoker : Invoker) (host : Host) (invocation : Invocation)
    (result : RunResult) (h : (invoker.execute host invocation).1 = .ok result) :
    result.Answers invocation := by
  unfold Invoker.execute at h
  split at h
  · split at h
    · exact absurd h (by simp only [reduceCtorEq, not_false_eq_true])
    · have hlaunched := Invoker.launch_answers _ _ _ result h
      rw [RunResult.Answers, hlaunched]
  · have hlaunched := Invoker.launch_answers _ _ _ result h
    rw [RunResult.Answers, hlaunched]

/-! ## Actions -/

/-- What can be done to a workbench as long as it takes queries. The last one
    stands for all that happens around it: other files, another environment, other
    outcomes of launches to come, other answers of the user. -/
inductive Action
  | query (mode : Text) (target : Option EditorTarget)
  | work (count : Nat)
  | drain
  | gesture (gesture : Gesture)
  | setScope
  | configure (values : Section)
  | meanwhile (host : Host) (user : User)

namespace Workbench

/-- What an action leaves and tells. -/
def perform (bench : Workbench) : Action → Outcome Workbench Unit
  | .query mode target => (bench.run mode target).void
  | .work count => .pure (bench.work count) ()
  | .drain => bench.drain
  | .gesture gesture => bench.react gesture
  | .setScope => bench.setScope.void
  | .configure values => bench.configure values
  | .meanwhile host user => .pure { bench with host, user } ()

/-- Nothing happened to the queries, to the results and to what is shown. -/
structure Alike (bench after : Workbench) : Prop where
  closed : after.closed = bench.closed
  latest : after.latest = bench.latest
  baseDir : after.baseDir = bench.baseDir
  waiting : after.waiting = bench.waiting
  results : after.results = bench.results
  sight : after.panel.sight = bench.panel.sight

/-- What collecting does: the results taken off the queue, and those shown. -/
inductive Drains (bench after : Workbench) :
    List (Nat × Except Failure RunResult) → List RunResult → Prop
  /-- The first results are off the queue. If the newest query's is among them,
      the query failed, or its output cannot be annotated. -/
  | dropped (removed results : List (Nat × Except Failure RunResult))
      (hresults : bench.results = removed ++ results)
      (hnewest : ∀ result document, (bench.latest, .ok result) ∈ removed →
        Annotator.standard.annotate (.ofText result.output) ≠ .ok document)
      (hpanel : after.panel = bench.panel)
      (h : Alike { bench with results } after) :
      Drains bench after removed []
  /-- The first results are off the queue, and the newest query's is shown. -/
  | presented (removed results : List (Nat × Except Failure RunResult)) (result : RunResult)
      (document : Document)
      (hresults : bench.results = removed ++ results)
      (hnewest : (bench.latest, .ok result) ∈ removed)
      (hdocument : Annotator.standard.annotate (.ofText result.output) = .ok document)
      (hpanel : after.panel = bench.panel.present document (summary result document))
      (h : Alike { bench with
        results
        panel := bench.panel.present document (summary result document) } after) :
      Drains bench after removed [result]

/-- What an action does to the queries and to what is shown: the query taken, the
    results taken off the queue, and the results shown. -/
inductive Moves (bench after : Workbench) :
    List (Nat × Invocation) → List (Nat × Except Failure RunResult) → List RunResult → Prop
  /-- Nothing happens to them. -/
  | idle (h : Alike bench after) : Moves bench after [] [] []
  /-- A query gets the next number and waits. -/
  | took (invocation : Invocation)
      (hplaced : Path.isAbsolute invocation.position.path = true)
      (h : Alike { bench with
        latest := bench.latest + 1
        baseDir := Path.dirName invocation.position.path
        waiting := bench.waiting ++ [(bench.latest + 1, invocation)] } after) :
      Moves bench after [(bench.latest + 1, invocation)] [] []
  /-- The first queries that wait have results, in their order. -/
  | ran (done waiting : List (Nat × Invocation)) (answers : List (Nat × Except Failure RunResult))
      (hwaiting : bench.waiting = done ++ waiting)
      (hnumbers : answers.map (·.1) = done.map (·.1))
      (hanswers : ∀ number result, (number, .ok result) ∈ answers →
        ∃ invocation, (number, invocation) ∈ done ∧ result.Answers invocation)
      (h : Alike { bench with waiting, results := bench.results ++ answers } after) :
      Moves bench after [] [] []
  /-- Results are collected. -/
  | drained {removed : List (Nat × Except Failure RunResult)} {shown : List RunResult}
      (h : Drains bench after removed shown) : Moves bench after [] removed shown

theorem Alike.refl (bench : Workbench) : Alike bench bench :=
  ⟨rfl, rfl, rfl, rfl, rfl, rfl⟩

theorem Alike.trans {first second third : Workbench} (h : Alike first second)
    (h' : Alike second third) : Alike first third where
  closed := h'.closed.trans h.closed
  latest := h'.latest.trans h.latest
  baseDir := h'.baseDir.trans h.baseDir
  waiting := h'.waiting.trans h.waiting
  results := h'.results.trans h.results
  sight := h'.sight.trans h.sight

/-- A query is taken, and a status that stays says so, or nothing happens to the
    others, and nothing is told but with a status that does not stay. -/
theorem run_moves (bench : Workbench) (mode : Text) (target : Option EditorTarget)
    (hopen : bench.closed = false) :
    (∃ invocation,
        Moves bench (bench.run mode target).state [(bench.latest + 1, invocation)] [] []
          ∧ (bench.run mode target).notices
            = [.status ("Running oracle: " ++ Mode.labelOf invocation.mode ++ "...") 0])
      ∨ Moves bench (bench.run mode target).state [] [] []
        ∧ ((bench.run mode target).notices = []
          ∨ ∃ text duration, duration ≠ 0
            ∧ (bench.run mode target).notices = [.status text duration]) := by
  unfold run
  cases target with
  | none => exact Or.inr ⟨.idle (.refl bench), Or.inr ⟨_, shortWhile, by decide, rfl⟩⟩
  | some target =>
      simp only
      split
      · refine Or.inr ⟨.idle ⟨rfl, rfl, rfl, rfl, rfl, rfl⟩, Or.inr ⟨_, _, ?_, rfl⟩⟩
        split <;> decide
      · exact Or.inr ⟨.idle ⟨rfl, rfl, rfl, rfl, rfl, rfl⟩, Or.inl rfl⟩
      · next invocation invoker user hprepare =>
          have hplaced : Path.isAbsolute invocation.position.path = true :=
            Invoker.prepare_isAbsolute bench.invoker bench.host invocation
              (by rw [hprepare])
          refine Or.inl ⟨invocation, ?_⟩
          simp only [start, hopen, Bool.false_eq_true, if_false]
          exact ⟨.took invocation hplaced ⟨hopen.symm, rfl, rfl, rfl, rfl, rfl⟩, rfl⟩

/-- The first queries that wait have results, in their order. -/
theorem work_ran (bench : Workbench) (count : Nat) :
    ∃ done waiting answers, bench.waiting = done ++ waiting
      ∧ answers.map (·.1) = done.map (·.1)
      ∧ (∀ number result, (number, .ok result) ∈ answers →
        ∃ invocation, (number, invocation) ∈ done ∧ result.Answers invocation)
      ∧ Alike { bench with waiting, results := bench.results ++ answers } (bench.work count) := by
  induction count generalizing bench with
  | zero =>
      refine ⟨[], bench.waiting, [], rfl, rfl, fun _ _ h => absurd h List.not_mem_nil, ?_⟩
      rw [List.append_nil]
      exact .refl bench
  | succ count ih =>
      cases hwaiting : bench.waiting with
      | nil =>
          refine ⟨[], [], [], rfl, rfl, fun _ _ h => absurd h List.not_mem_nil, ?_⟩
          simp only [work, hwaiting, List.append_nil]
          exact ⟨rfl, rfl, rfl, hwaiting, rfl, rfl⟩
      | cons entry waiting =>
          rcases entry with ⟨number, invocation⟩
          rcases hlaunch : bench.invoker.execute bench.host invocation with ⟨result, invoker, host⟩
          -- The first query waiting is run, and the others after it in the same way.
          rcases ih { bench with
            invoker, host, waiting
            results := bench.results ++ [(number, result)] } with
            ⟨done, left, answers, hleft, hnumbers, hanswers, halike⟩
          refine ⟨(number, invocation) :: done, left, (number, result) :: answers, ?_, ?_, ?_, ?_⟩
          · exact congrArg _ hleft
          · rw [List.map_cons, List.map_cons, hnumbers]
          · intro n r hmem
            rcases List.mem_cons.mp hmem with heq | hmem
            · rcases Prod.mk.inj heq with ⟨rfl, hresult⟩
              refine ⟨invocation, List.mem_cons_self, ?_⟩
              refine Invoker.execute_answers bench.invoker bench.host invocation r ?_
              rw [hlaunch, hresult]
            · rcases hanswers n r hmem with ⟨asked, hasked, hr⟩
              exact ⟨asked, List.mem_cons_of_mem _ hasked, hr⟩
          · simp only [work, hwaiting, hlaunch]
            refine ⟨halike.closed, halike.latest, halike.baseDir, halike.waiting, ?_, halike.sight⟩
            rw [halike.results, List.append_assoc]
            rfl

-- Showing a result is told once.
theorem present_finished (bench : Workbench) (result : RunResult) (document : Document) :
    finishedIn (bench.present result document).notices = [result] := by
  have hfocus : finishedIn (if bench.focusPanel then [.focused .output] else []) = [] := by
    split <;> rfl
  have hdebug : finishedIn (if result.debug.isEmpty then [] else [.debug result.debug]) = [] := by
    split <;> rfl
  simp only [present, Outcome.tell, finishedIn_append, hfocus, hdebug]
  rfl

-- The end of the newest query: its result is shown, or nothing is.
theorem conclude_cases (bench : Workbench) (result : Except Failure RunResult) :
    (Alike bench (bench.conclude result).state
        ∧ (bench.conclude result).state.panel = bench.panel
        ∧ finishedIn (bench.conclude result).notices = []
        ∧ ∀ answer document, result = .ok answer →
          Annotator.standard.annotate (.ofText answer.output) ≠ .ok document)
      ∨ ∃ answer document, result = .ok answer
        ∧ Annotator.standard.annotate (.ofText answer.output) = .ok document
        ∧ (bench.conclude result).state
          = { bench with panel := bench.panel.present document (summary answer document) }
        ∧ finishedIn (bench.conclude result).notices = [answer]
        ∧ (bench.conclude result).result = .ok () := by
  cases result with
  | error failure =>
      -- A failure has nothing to show, whether it is told or not.
      have hnone : ∀ answer document, (.error failure : Except Failure RunResult) = .ok answer →
          Annotator.standard.annotate (.ofText answer.output) ≠ .ok document :=
        fun _ _ h => absurd h (by simp only [reduceCtorEq, not_false_eq_true])
      refine Or.inl ?_
      simp only [conclude, report]
      split
      · exact ⟨⟨rfl, rfl, rfl, rfl, rfl, rfl⟩, rfl, rfl, hnone⟩
      · exact ⟨⟨rfl, rfl, rfl, rfl, rfl, rfl⟩, rfl, rfl, hnone⟩
  | ok answer =>
      cases hdocument : Annotator.standard.annotate (.ofText answer.output) with
      | error failure =>
          refine Or.inl ?_
          simp only [conclude, hdocument]
          refine ⟨.refl bench, rfl, rfl, fun other document hother => ?_⟩
          rw [← Except.ok.inj hother, hdocument]
          simp only [ne_eq, reduceCtorEq, not_false_eq_true]
      | ok document =>
          have hpresent : bench.conclude (.ok answer) = bench.present answer document := by
            simp only [conclude, hdocument]
          rw [hpresent]
          exact Or.inr ⟨answer, document, rfl, hdocument, rfl,
            present_finished bench answer document, rfl⟩

-- Collecting results of which none is the newest query's.
theorem collect_older (bench : Workbench) (results : List (Nat × Except Failure RunResult))
    (h : bench.latest ∉ results.map (·.1)) :
    bench.collect results = .pure { bench with results := [] } () := by
  induction results with
  | nil => rfl
  | cons entry results ih =>
      rw [List.map_cons, List.mem_cons, not_or] at h
      simp only [collect, if_pos (Ne.symm h.1)]
      exact ih h.2

-- Collecting goes through the results up to the newest query's, deals with that one, and drops
-- the others unless it could not be dealt with.
theorem collect_newest (bench : Workbench) (older newer : List (Nat × Except Failure RunResult))
    (result : Except Failure RunResult) (holder : bench.latest ∉ older.map (·.1)) :
    bench.collect (older ++ (bench.latest, result) :: newer)
      = (conclude { bench with results := newer } result).andThen
          fun bench _ => collect bench newer := by
  induction older with
  | nil => simp only [List.nil_append, collect, ne_eq, not_true_eq_false, if_false]
  | cons entry older ih =>
      rw [List.map_cons, List.mem_cons, not_or] at holder
      simp only [List.cons_append, collect, if_pos (Ne.symm holder.1)]
      exact ih holder.2

theorem not_mem_of_nodup_split {older newer : List (Nat × Except Failure RunResult)} {number : Nat}
    {result : Except Failure RunResult}
    (h : ((older ++ (number, result) :: newer).map (·.1)).Nodup) :
    number ∉ older.map (·.1) ∧ number ∉ newer.map (·.1) := by
  rw [List.map_append, List.map_cons, List.nodup_append] at h
  rcases h with ⟨_, hnewer, hapart⟩
  refine ⟨fun hmem => ?_, (List.nodup_cons.mp hnewer).1⟩
  exact hapart number hmem number List.mem_cons_self rfl

-- Dealing with a result takes no query.
theorem conclude_latest (bench : Workbench) (result : Except Failure RunResult) :
    (bench.conclude result).state.latest = bench.latest := by
  rcases conclude_cases bench result with ⟨halike, _⟩ | ⟨answer, document, _, _, hstate, _⟩
  · exact halike.latest
  · rw [hstate]

/-- Collecting passes over results that are all of older queries, or it comes to the
    newest query's, deals with that one, and drops the others unless it could not be
    dealt with. -/
theorem drain_cases (bench : Workbench) (hnodup : (bench.results.map (·.1)).Nodup) :
    (bench.latest ∉ bench.results.map (·.1)
        ∧ bench.drain = .pure { bench with results := [] } ())
      ∨ ∃ older result newer, bench.results = older ++ (bench.latest, result) :: newer
        ∧ bench.drain = (conclude { bench with results := newer } result).andThen
          fun bench _ => .pure { bench with results := [] } () := by
  by_cases hmem : bench.latest ∈ bench.results.map (·.1)
  · rcases List.mem_map.mp hmem with ⟨⟨number, result⟩, hentry, hnumber⟩
    rcases List.append_of_mem hentry with ⟨older, newer, hresults⟩
    simp only at hnumber
    rw [hnumber] at hresults
    rw [hresults] at hnodup
    -- Neither the results before the newest query's nor those after it are its own.
    have hapart := not_mem_of_nodup_split hnodup
    have hrest := collect_older (conclude { bench with results := newer } result).state newer
      (by rw [conclude_latest]; exact hapart.2)
    refine Or.inr ⟨older, result, newer, hresults, ?_⟩
    rw [drain, hresults, collect_newest bench older newer result hapart.1]
    simp only [Outcome.andThen, hrest]
  · exact Or.inl ⟨hmem, collect_older bench bench.results hmem⟩

/-- Collecting takes the first results off the queue, and shows the newest query's
    or none. -/
theorem drain_drains (bench : Workbench) (hnodup : (bench.results.map (·.1)).Nodup) :
    ∃ removed shown, Drains bench bench.drain.state removed shown
      ∧ finishedIn bench.drain.notices = shown := by
  rcases drain_cases bench hnodup with ⟨hmissing, hdrain⟩ | ⟨older, result, newer, hresults, hdrain⟩
  · rw [hdrain]
    refine ⟨bench.results, [], .dropped _ [] (List.append_nil _).symm ?_ rfl (.refl _), rfl⟩
    exact fun answer document hanswer => absurd (List.mem_map_of_mem hanswer) hmissing
  · have hmem : (bench.latest, result) ∈ bench.results := by
      rw [hresults]
      exact List.mem_append_right older List.mem_cons_self
    rw [hdrain]
    rcases conclude_cases { bench with results := newer } result with
      ⟨halike, hpanel, hquiet, hnone⟩ | ⟨answer, document, hanswer, hdocument, hstate, hshown, hok⟩
    · -- No other result has the newest number, so there is nothing to show.
      have hnewest : ∀ answer document, (bench.latest, .ok answer) ∈ bench.results →
          Annotator.standard.annotate (.ofText answer.output) ≠ .ok document :=
        fun answer document hother => hnone answer document
          (Prod.mk.inj (List.inj_on_of_nodup_map hnodup hmem hother rfl)).2
      cases hresult : (conclude { bench with results := newer } result).result with
      | error failure =>
          have hsplit : bench.results = older ++ [(bench.latest, result)] ++ newer := by
            rw [hresults, List.append_assoc]
            rfl
          simp only [Outcome.andThen, hresult]
          refine ⟨older ++ [(bench.latest, result)], [],
            .dropped _ newer hsplit (fun answer document hremoved => ?_) hpanel halike, hquiet⟩
          refine hnewest answer document ?_
          rw [hsplit]
          exact List.mem_append_left newer hremoved
      | ok value =>
          simp only [Outcome.andThen, hresult, Outcome.pure, List.append_nil]
          exact ⟨bench.results, [], .dropped _ [] (List.append_nil _).symm hnewest hpanel
            ⟨halike.closed, halike.latest, halike.baseDir, halike.waiting, rfl, halike.sight⟩,
            hquiet⟩
    · simp only [Outcome.andThen, hok, hstate, Outcome.pure, List.append_nil]
      exact ⟨bench.results, [answer], .presented _ [] answer document (List.append_nil _).symm
        (hanswer ▸ hmem) hdocument rfl ⟨rfl, rfl, rfl, rfl, rfl, rfl⟩, hshown⟩

-- A gesture moves no query and changes nothing of what is shown.
theorem react_moves (bench : Workbench) (gesture : Gesture) :
    Moves bench (bench.react gesture).state [] [] []
      ∧ finishedIn (bench.react gesture).notices = [] := by
  refine ⟨.idle ⟨rfl, rfl, rfl, rfl, rfl, Panel.sight_after bench.panel gesture⟩, ?_⟩
  have hactivate : ∀ path line column, finishedIn (bench.activate path line column) = [] := by
    intro path line column
    unfold activate
    simp only
    split <;> rfl
  simp only [react, Outcome.tell]
  cases (bench.panel.react gesture).2 with
  | none => rfl
  | some location => exact hactivate _ _ _

theorem askScope_moves (current : Text) (asks : Nat) (bench : Workbench) :
    Alike bench (askScope current asks bench).state
      ∧ finishedIn (askScope current asks bench).notices = [] := by
  induction asks generalizing bench with
  | zero => exact ⟨.refl bench, rfl⟩
  | succ asks ih =>
      unfold askScope
      split
      · exact ⟨⟨rfl, rfl, rfl, rfl, rfl, rfl⟩, rfl⟩
      · next candidate user _ =>
          split
          · exact ⟨⟨rfl, rfl, rfl, rfl, rfl, rfl⟩, rfl⟩
          · next refusal _ =>
              have hrest := ih
                { bench with user := user.see (.warning User.scopeTitle refusal.message) }
              have halike : Alike bench
                  { bench with user := user.see (.warning User.scopeTitle refusal.message) } :=
                ⟨rfl, rfl, rfl, rfl, rfl, rfl⟩
              exact ⟨halike.trans hrest.1, hrest.2⟩

/-- Configuring sets the toolchain anew, and the limits and the focus as far as they
    make sense. -/
theorem configure_state (bench : Workbench) (values : Section) :
    ∃ session panel focusPanel, panel.sight = bench.panel.sight
      ∧ (bench.configure values).state = { bench with
        invoker := { bench.invoker.configure (some (Settings.valueOf values "command").word)
          (some (.resolved (requestOf values))) with session }
        panel
        focusPanel } := by
  unfold configure
  simp only
  split
  · exact ⟨_, bench.panel, bench.focusPanel, rfl, rfl⟩
  · split
    · exact ⟨_, bench.panel, bench.focusPanel, rfl, rfl⟩
    · next lines _ => exact ⟨_, bench.panel.setMaxLines lines, _, rfl, rfl⟩

theorem configure_notices (bench : Workbench) (values : Section) :
    (bench.configure values).notices = [] := by
  unfold configure
  simp only
  split
  · rfl
  · split <;> rfl

theorem configure_moves (bench : Workbench) (values : Section) :
    Alike bench (bench.configure values).state
      ∧ finishedIn (bench.configure values).notices = [] := by
  rcases configure_state bench values with ⟨session, panel, focusPanel, hsight, hstate⟩
  rw [hstate, configure_notices]
  exact ⟨⟨rfl, rfl, rfl, rfl, rfl, hsight⟩, rfl⟩

/-- Every action does one of the five things, and what it tells is what it
    shows. -/
theorem perform_moves (bench : Workbench) (action : Action) (hopen : bench.closed = false)
    (hnodup : (bench.results.map (·.1)).Nodup) :
    ∃ taken removed shown, Moves bench (bench.perform action).state taken removed shown
      ∧ finishedIn (bench.perform action).notices = shown := by
  cases action with
  | query mode target =>
      rcases run_moves bench mode target hopen with
        ⟨invocation, hmoves, htold⟩ | ⟨hmoves, hnone | ⟨text, duration, _, htold⟩⟩
      · exact ⟨_, [], [], hmoves, congrArg finishedIn htold⟩
      · exact ⟨[], [], [], hmoves, congrArg finishedIn hnone⟩
      · exact ⟨[], [], [], hmoves, congrArg finishedIn htold⟩
  | work count =>
      rcases work_ran bench count with
        ⟨done, waiting, answers, hwaiting, hnumbers, hanswers, halike⟩
      exact ⟨[], [], [], .ran done waiting answers hwaiting hnumbers hanswers halike, rfl⟩
  | drain =>
      rcases drain_drains bench hnodup with ⟨removed, shown, hdrains, hshown⟩
      exact ⟨[], removed, shown, .drained hdrains, hshown⟩
  | gesture gesture => exact ⟨[], [], [], react_moves bench gesture⟩
  | setScope =>
      have hscope := askScope_moves bench.session.scope (bench.user.answers.length + 1) bench
      exact ⟨[], [], [], .idle hscope.1, hscope.2⟩
  | configure values =>
      have hconfigure := configure_moves bench values
      exact ⟨[], [], [], .idle hconfigure.1, hconfigure.2⟩
  | meanwhile host user => exact ⟨[], [], [], .idle ⟨rfl, rfl, rfl, rfl, rfl, rfl⟩, rfl⟩

end Workbench

end QueryDesk
