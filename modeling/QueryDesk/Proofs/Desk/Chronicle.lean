import Mathlib.Data.List.Nodup
import QueryDesk.Proofs.Desk.Steps

/-!
# The chronicle of a workbench

A workbench forgets: a query that was run is no longer known, nor is a result
that was collected. The chronicle of a run keeps what the workbench itself lets
go: the queries taken with their numbers, the results taken off the queue, and
the results shown. All of it is read off the states and the notices of the run.

The invariant that ties the two together says that the numbers of the results
off the queue, of those on it and of the queries that wait are, in this order,
all numbers from one to the newest. No number comes twice, so a result that is
off the queue does not come back, and the only result with the newest number is
the newest query's.

## Main definitions

* `Chronicle`: A workbench with what it took, collected and showed.
* `Workbench.follow`: The chronicle of a run.
* `Workbench.Unused`: A workbench that has taken no query.
* `Workbench.twoFiles`, `Workbench.askAbout`: A workbench and a query to try.
* `Chronicle.Sound`: The invariant of a run.

## Theorems

* `Moves.taken_eq`, `Moves.removed_eq`: The chronicle keeps what an action moved.
* `sound_step`: An action keeps the invariant.
* `sound_follow`: The invariant holds after every run.
-/

namespace QueryDesk

/-- A workbench, the queries it took with their numbers, the results it took off
    the queue, and those it showed. -/
structure Chronicle where
  bench : Workbench
  taken : List (Nat × Invocation)
  collected : List (Nat × Except Failure RunResult)
  shown : List (Nat × RunResult)

namespace Chronicle

/-- The chronicle one action later. A result that is shown has the number that is
    the newest when it is shown. -/
def step (log : Chronicle) (action : Action) : Chronicle :=
  let outcome := log.bench.perform action
  { bench := outcome.state
    taken := log.taken ++ outcome.state.waiting.drop log.bench.waiting.length
    collected := log.collected
      ++ log.bench.results.take (log.bench.results.length - outcome.state.results.length)
    shown := log.shown
      ++ (finishedIn outcome.notices).map fun result => (log.bench.latest, result) }

end Chronicle

namespace Workbench

/-- The chronicle of a run. -/
def follow (bench : Workbench) (actions : List Action) : Chronicle :=
  actions.foldl Chronicle.step ⟨bench, [], [], []⟩

/-- A workbench that takes queries and has taken none. Its host, its user, its
    invoker and its settings can be any. -/
structure Unused (bench : Workbench) : Prop where
  opened : bench.closed = false
  latest : bench.latest = 0
  baseDir : bench.baseDir = []
  waiting : bench.waiting = []
  results : bench.results = []
  panel : ∃ lines, bench.panel = .fresh lines

theorem unused_fresh (host : Host) (user : User) (session : Session) :
    (fresh host user session).Unused :=
  ⟨rfl, rfl, rfl, rfl, rfl, ⟨_, rfl⟩⟩

/-- A workbench on a host with the files `/a/x.go` and `/b/y.go`, where the launches
    to come write the given outputs. -/
def twoFiles (outputs : List Text) : Workbench :=
  let tree : FileTree := ⟨[
    ("a", .directory [("x.go", .file (Utf8.encode "package a\n") false)]),
    ("b", .directory [("y.go", .file (Utf8.encode "package b\n") false)])]⟩
  let outcomes := outputs.map fun output => LaunchOutcome.exited 0 (Utf8.encode output) []
  let session : Session := ⟨"main", [], Session.defaultLimit⟩
  { fresh { Host.ofFiles tree with outcomes } ⟨[], []⟩ session with
    invoker := .fresh session [] (.fixed ⟨"/go", [], []⟩) }

theorem unused_twoFiles (outputs : List Text) : (twoFiles outputs).Unused :=
  ⟨rfl, rfl, rfl, rfl, rfl, ⟨_, rfl⟩⟩

/-- A query about the start of a file. -/
def askAbout (path : Text) : Action :=
  .query "describe" (some ⟨some path, false, some "package p\n", .ok ⟨1, none⟩⟩)

variable {bench after : Workbench} {taken : List (Nat × Invocation)}
  {removed : List (Nat × Except Failure RunResult)} {shown : List RunResult}

/-- The queries taken are those that wait beyond the ones before. -/
theorem Moves.taken_eq (h : Moves bench after taken removed shown) :
    after.waiting.drop bench.waiting.length = taken := by
  cases h with
  | idle h => rw [h.waiting, List.drop_length]
  | took invocation _ h => rw [h.waiting, List.drop_left]
  | ran done waiting answers hwaiting _ _ h =>
      rw [h.waiting, hwaiting, List.length_append]
      exact List.drop_of_length_le (Nat.le_add_left _ _)
  | drained h =>
      cases h with
      | dropped results _ _ _ h => rw [h.waiting, List.drop_length]
      | presented results _ _ _ _ _ _ h => rw [h.waiting, List.drop_length]

/-- The results taken off the queue are the first ones, as many as are missing. -/
theorem Moves.removed_eq (h : Moves bench after taken removed shown) :
    bench.results.take (bench.results.length - after.results.length) = removed := by
  have hfront : ∀ removed results : List (Nat × Except Failure RunResult),
      bench.results = removed ++ results → after.results = results →
      bench.results.take (bench.results.length - after.results.length) = removed := by
    intro removed results hbench hafter
    rw [hafter, hbench, List.length_append, Nat.add_sub_cancel, List.take_left]
  cases h with
  | idle h => rw [h.results, Nat.sub_self, List.take_zero]
  | took invocation _ h => rw [h.results, Nat.sub_self, List.take_zero]
  | ran done waiting answers _ _ _ h =>
      have hnone : bench.results.length - after.results.length = 0 := by
        rw [h.results, List.length_append]
        omega
      rw [hnone, List.take_zero]
  | drained h =>
      cases h with
      | dropped results hresults _ _ h => exact hfront _ _ hresults h.results
      | presented results _ _ hresults _ _ _ h => exact hfront _ _ hresults h.results

end Workbench

namespace Chronicle

/-- The panel shows the result that was shown last, and leads nowhere as long as
    there is none. -/
def Displays (log : Chronicle) : Prop :=
  match log.shown.getLast? with
  | none => log.bench.panel.annotations = []
  | some (_, result) =>
      ∃ document, Annotator.standard.annotate (.ofText result.output) = .ok document
        ∧ log.bench.panel.sight = Panel.sightOf document (Workbench.summary result document)

/-- The directory of the newest query's file is the one that relative paths are
    looked for from. -/
def Based (log : Chronicle) : Prop :=
  log.bench.baseDir = match log.taken.getLast? with
    | none => []
    | some (_, invocation) => Path.dirName invocation.position.path

/-- What holds after every run. -/
structure Sound (log : Chronicle) : Prop where
  opened : log.bench.closed = false
  /-- Queries are numbered in the order in which they are taken. -/
  numbered : log.taken.map (·.1) = List.range' 1 log.bench.latest
  /-- Every query taken is in one place, and all are in order. -/
  ordered : log.collected.map (·.1) ++ log.bench.results.map (·.1) ++ log.bench.waiting.map (·.1)
    = List.range' 1 log.bench.latest
  pending : ∀ entry ∈ log.bench.waiting, entry ∈ log.taken
  /-- Every query taken is about a file with an absolute path. -/
  placed : ∀ entry ∈ log.taken, Path.isAbsolute entry.2.position.path = true
  /-- A result is one of the query with its number. -/
  answered : ∀ number result, (number, .ok result) ∈ log.collected ++ log.bench.results →
    ∃ invocation, (number, invocation) ∈ log.taken ∧ result.Answers invocation
  /-- Results shown were on the queue under the number they are shown by. -/
  shown : (log.shown.map fun entry => (entry.1, Except.ok entry.2)).Sublist log.collected
  displays : log.Displays
  /-- The newest query's result is shown when it is off the queue. -/
  newest : ∀ result document, (log.bench.latest, .ok result) ∈ log.collected →
    Annotator.standard.annotate (.ofText result.output) = .ok document →
    log.shown.getLast? = some (log.bench.latest, result)
  based : log.Based

theorem sound_start (bench : Workbench) (h : bench.Unused) : Sound ⟨bench, [], [], []⟩ where
  opened := h.opened
  numbered := by
    simp only [h.latest]
    rfl
  ordered := by
    simp only [h.latest, h.results, h.waiting]
    rfl
  pending := fun entry hentry => absurd (h.waiting ▸ hentry) List.not_mem_nil
  placed := fun entry hentry => absurd hentry List.not_mem_nil
  answered := fun number result hmem => by
    simp only [h.results, List.append_nil] at hmem
    exact absurd hmem List.not_mem_nil
  shown := List.Sublist.refl []
  displays := by
    rcases h.panel with ⟨lines, hpanel⟩
    simp only [Displays, List.getLast?_nil, hpanel]
    rfl
  newest := fun _ _ hmem _ => absurd hmem List.not_mem_nil
  based := h.baseDir

variable {log : Chronicle}

theorem Sound.nodup (h : log.Sound) : (log.collected.map (·.1) ++ log.bench.results.map (·.1)
    ++ log.bench.waiting.map (·.1)).Nodup := by
  rw [h.ordered]
  exact List.nodup_range'

theorem Sound.nodup_results (h : log.Sound) : (log.bench.results.map (·.1)).Nodup :=
  (List.nodup_append.mp (List.nodup_append.mp h.nodup).1).2.1

-- A result that has come has the number of a query that was taken.
theorem Sound.number_le (h : log.Sound) (number : Nat) (result : Except Failure RunResult)
    (hmem : (number, result) ∈ log.collected ++ log.bench.results) : number ≤ log.bench.latest := by
  have hrange : number ∈ List.range' 1 log.bench.latest := by
    rw [← h.ordered, ← List.map_append]
    exact List.mem_append_left _ (List.mem_map_of_mem hmem)
  rw [List.mem_range'_1] at hrange
  omega

theorem Sound.unique (h : log.Sound) (number : Nat) (result other : Except Failure RunResult)
    (hresult : (number, result) ∈ log.collected ++ log.bench.results)
    (hother : (number, other) ∈ log.collected ++ log.bench.results) : result = other := by
  have hnodup : ((log.collected ++ log.bench.results).map (·.1)).Nodup := by
    rw [List.map_append]
    exact (List.nodup_append.mp h.nodup).1
  exact (Prod.mk.inj (List.inj_on_of_nodup_map hnodup hresult hother rfl)).2

theorem Sound.step_eq (h : log.Sound) (action : Action) :
    ∃ taken removed shown,
      Workbench.Moves log.bench (log.bench.perform action).state taken removed shown
        ∧ log.step action = ⟨(log.bench.perform action).state, log.taken ++ taken,
          log.collected ++ removed,
          log.shown ++ shown.map fun result => (log.bench.latest, result)⟩ := by
  rcases Workbench.perform_moves log.bench action h.opened h.nodup_results with
    ⟨taken, removed, shown, hmoves, hshown⟩
  refine ⟨taken, removed, shown, hmoves, ?_⟩
  simp only [step, hmoves.taken_eq, hmoves.removed_eq, hshown]

-- The base directory is that of the query taken last.
theorem Sound.baseDir_newest (h : log.Sound) {invocation : Invocation}
    (hlast : log.taken.getLast? = some (log.bench.latest, invocation)) :
    log.bench.baseDir = Path.dirName invocation.position.path := by
  have hbased := h.based
  simp only [Based, hlast] at hbased
  exact hbased

-- The newest query's result is what the panel shows, once it is off the queue.
theorem Sound.sight_newest (h : log.Sound) {result : RunResult} {document : Document}
    (hcollected : (log.bench.latest, .ok result) ∈ log.collected)
    (hdocument : Annotator.standard.annotate (.ofText result.output) = .ok document) :
    log.bench.panel.sight = Panel.sightOf document (Workbench.summary result document) := by
  have hdisplays := h.displays
  simp only [Displays, h.newest result document hcollected hdocument] at hdisplays
  rcases hdisplays with ⟨other, hother, hsight⟩
  rw [Except.ok.inj (hdocument.symm.trans hother)]
  exact hsight

-- Nothing happens to the queries.
theorem Sound.idle (h : log.Sound) (after : Workbench) (halike : Workbench.Alike log.bench after) :
    Sound ⟨after, log.taken, log.collected, log.shown⟩ where
  opened := halike.closed.trans h.opened
  numbered := by rw [halike.latest]; exact h.numbered
  ordered := by rw [halike.results, halike.waiting, halike.latest]; exact h.ordered
  pending := by rw [halike.waiting]; exact h.pending
  placed := h.placed
  answered := by rw [halike.results]; exact h.answered
  shown := h.shown
  displays := by
    have hannotations : after.panel.annotations = log.bench.panel.annotations :=
      congrArg Panel.Sight.annotations halike.sight
    have hdisplays := h.displays
    simp only [Displays] at hdisplays ⊢
    rw [halike.sight, hannotations]
    exact hdisplays
  newest := by rw [halike.latest]; exact h.newest
  based := by
    have hbased := h.based
    simp only [Based] at hbased ⊢
    rw [halike.baseDir]
    exact hbased

-- A query is taken. No result has its number yet.
theorem Sound.took (h : log.Sound) (invocation : Invocation)
    (hplaced : Path.isAbsolute invocation.position.path = true) :
    Sound ⟨{ log.bench with
        latest := log.bench.latest + 1
        baseDir := Path.dirName invocation.position.path
        waiting := log.bench.waiting ++ [(log.bench.latest + 1, invocation)] },
      log.taken ++ [(log.bench.latest + 1, invocation)], log.collected, log.shown⟩ where
  opened := h.opened
  numbered := by
    rw [List.map_append, h.numbered, List.range'_1_concat, Nat.add_comm 1]
    rfl
  ordered := by
    simp only [List.map_append, ← List.append_assoc]
    rw [h.ordered, List.range'_1_concat, Nat.add_comm 1]
    rfl
  pending := by
    intro entry hentry
    rcases List.mem_append.mp hentry with hentry | hentry
    · exact List.mem_append_left _ (h.pending entry hentry)
    · exact List.mem_append_right _ hentry
  placed := by
    intro entry hentry
    rcases List.mem_append.mp hentry with hentry | hentry
    · exact h.placed entry hentry
    · rw [List.mem_singleton.mp hentry]
      exact hplaced
  answered := by
    intro number result hmem
    rcases h.answered number result hmem with ⟨asked, hasked, hanswers⟩
    exact ⟨asked, List.mem_append_left _ hasked, hanswers⟩
  shown := h.shown
  displays := h.displays
  newest := by
    intro result document hmem _
    -- No result can have come under the number just given.
    have hle := h.number_le _ _ (List.mem_append_left _ hmem)
    exact absurd hle (Nat.not_succ_le_self _)
  based := by
    simp only [Based, List.getLast?_concat]

-- The first queries that wait are run.
theorem Sound.ran (h : log.Sound) (done waiting : List (Nat × Invocation))
    (answers : List (Nat × Except Failure RunResult))
    (hwaiting : log.bench.waiting = done ++ waiting)
    (hnumbers : answers.map (·.1) = done.map (·.1))
    (hanswers : ∀ number result, (number, .ok result) ∈ answers →
      ∃ invocation, (number, invocation) ∈ done ∧ result.Answers invocation) :
    Sound ⟨{ log.bench with waiting, results := log.bench.results ++ answers },
      log.taken, log.collected, log.shown⟩ where
  opened := h.opened
  numbered := h.numbered
  ordered := by
    have hordered := h.ordered
    rw [hwaiting, List.map_append, ← List.append_assoc] at hordered
    rw [List.map_append, hnumbers, ← List.append_assoc]
    exact hordered
  pending := fun entry hentry => h.pending entry (hwaiting ▸ List.mem_append_right done hentry)
  placed := h.placed
  answered := by
    intro number result hmem
    rw [← List.append_assoc] at hmem
    rcases List.mem_append.mp hmem with hmem | hmem
    · exact h.answered number result hmem
    -- A new answer is that of one of the queries just run, and these were taken.
    · rcases hanswers number result hmem with ⟨invocation, hdone, hresult⟩
      exact ⟨invocation, h.pending _ (hwaiting ▸ List.mem_append_left waiting hdone), hresult⟩
  shown := h.shown
  displays := h.displays
  newest := h.newest
  based := h.based

-- The first results are taken off the queue and none is shown.
theorem Sound.dropped (h : log.Sound) (removed results : List (Nat × Except Failure RunResult))
    (hresults : log.bench.results = removed ++ results)
    (hnewest : ∀ result document, (log.bench.latest, .ok result) ∈ removed →
      Annotator.standard.annotate (.ofText result.output) ≠ .ok document) :
    Sound ⟨{ log.bench with results }, log.taken, log.collected ++ removed, log.shown⟩ where
  opened := h.opened
  numbered := h.numbered
  ordered := by
    have hordered := h.ordered
    rw [hresults, List.map_append, ← List.append_assoc] at hordered
    rw [List.map_append]
    exact hordered
  pending := h.pending
  placed := h.placed
  answered := by
    intro number result hmem
    refine h.answered number result ?_
    rw [hresults, ← List.append_assoc]
    exact hmem
  shown := h.shown.trans (List.sublist_append_left _ _)
  displays := h.displays
  newest := by
    intro result document hmem hdocument
    rcases List.mem_append.mp hmem with hmem | hmem
    · exact h.newest result document hmem hdocument
    -- Of the newest query nothing that can be shown was dropped.
    · exact absurd hdocument (hnewest result document hmem)
  based := h.based

-- The first results are taken off the queue and the newest query's is shown.
theorem Sound.presented (h : log.Sound) (removed results : List (Nat × Except Failure RunResult))
    (result : RunResult) (document : Document) (hresults : log.bench.results = removed ++ results)
    (hnewest : (log.bench.latest, .ok result) ∈ removed)
    (hdocument : Annotator.standard.annotate (.ofText result.output) = .ok document) :
    Sound ⟨{ log.bench with
        results
        panel := log.bench.panel.present document (Workbench.summary result document) },
      log.taken, log.collected ++ removed, log.shown ++ [(log.bench.latest, result)]⟩ where
  opened := h.opened
  numbered := h.numbered
  ordered := by
    have hordered := h.ordered
    rw [hresults, List.map_append, ← List.append_assoc] at hordered
    rw [List.map_append]
    exact hordered
  pending := h.pending
  placed := h.placed
  answered := by
    intro number answer hmem
    refine h.answered number answer ?_
    rw [hresults, ← List.append_assoc]
    exact hmem
  shown := by
    rw [List.map_append]
    exact h.shown.append (List.singleton_sublist.mpr hnewest)
  displays := by
    simp only [Displays, List.getLast?_concat]
    exact ⟨document, hdocument, rfl⟩
  newest := by
    intro answer other hmem _
    have hwhole : ∀ entry, entry ∈ log.collected ++ removed →
        entry ∈ log.collected ++ log.bench.results := by
      intro entry hentry
      rw [hresults, ← List.append_assoc]
      exact List.mem_append_left _ hentry
    -- The newest query has one result, so it is the one just shown.
    have hsame := h.unique _ _ _ (hwhole _ hmem) (hwhole _ (List.mem_append_right _ hnewest))
    rw [Except.ok.inj hsame, List.getLast?_concat]
  based := h.based

/-- An action keeps the invariant. -/
theorem sound_step (h : log.Sound) (action : Action) : (log.step action).Sound := by
  rcases h.step_eq action with ⟨taken, removed, shown, hmoves, hstep⟩
  rw [hstep]
  cases hmoves with
  | idle halike =>
      have hsound := h.idle _ halike
      simpa only [List.append_nil, List.map_nil] using hsound
  | took invocation hplaced halike =>
      have hsound := (h.took invocation hplaced).idle _ halike
      simpa only [List.append_nil, List.map_nil] using hsound
  | ran done waiting answers hwaiting hnumbers hanswers halike =>
      have hsound := (h.ran done waiting answers hwaiting hnumbers hanswers).idle _ halike
      simpa only [List.append_nil, List.map_nil] using hsound
  | drained hdrains =>
      cases hdrains with
      | dropped results hresults hnewest _ halike =>
          have hsound := (h.dropped removed results hresults hnewest).idle _ halike
          simpa only [List.append_nil, List.map_nil] using hsound
      | presented results result document hresults hnewest hdocument _ halike =>
          have hsound :=
            (h.presented removed results result document hresults hnewest hdocument).idle _ halike
          simpa only [List.append_nil, List.map_cons, List.map_nil] using hsound

theorem follow_append (bench : Workbench) (actions more : List Action) :
    bench.follow (actions ++ more) = more.foldl step (bench.follow actions) :=
  List.foldl_append

theorem Sound.foldl (h : log.Sound) (actions : List Action) : (actions.foldl step log).Sound := by
  induction actions generalizing log with
  | nil => exact h
  | cons action actions ih => exact ih (sound_step h action)

/-- The invariant holds after every run. -/
theorem sound_follow (bench : Workbench) (h : bench.Unused) (actions : List Action) :
    (bench.follow actions).Sound :=
  (sound_start bench h).foldl actions

end Chronicle

end QueryDesk
