import QueryDesk.Proofs.Query.Requests

/-!
# What happens to an invoker

Three kinds of things happen to an invoker that bear on its toolchain: it is
configured, it asks its source, and it launches the tool. The story of some requests
is all that happens, in order. What sources answer is not looked into here. A source
may fail, may answer otherwise each time, and may do anything to the host, so all of
this holds of sources that nobody has thought of; those of the desk are one instance.

An invoker is as good as a ledger of its story. The ledger has the source in force,
the toolchain kept and the lines that wait, and says what can come next: a question
only when no toolchain is kept, and only to the source in force; a launch that
finishes only with the lines that wait before its own.

## Main definitions

* `Happening`: What can happen.
* `Usage.happenings`, `Usage.story`: What happens at one request, and at several.
* `Usage.results`: The results that come back.
* `Ledger`: What a story leaves.
* `Ledger.Allows`, `Ledger.Lawful`: What can come next, and which stories there are.

## Theorems

* `Lawful.kept`: As long as a toolchain is kept there are only launches, and the
  first of them takes the lines that wait.
* `resolved_of_kept`: A toolchain that is kept was resolved since the last
  configuration.
* `happenings_lawful`, `story_lawful`: What happens at a request, and at several, is
  lawful and leaves the ledger of the invoker.
* `story_results`: The results in a story are those that come back, in order.
-/

namespace QueryDesk

/-- What can happen to an invoker that bears on its toolchain. -/
inductive Happening
  /-- It is configured, perhaps with another source. -/
  | configured (given : Option ToolchainSource)
  /-- It asks its source. -/
  | asked (source : ToolchainSource) (answer : Except Failure Toolchain)
  /-- It launches the tool. -/
  | launched (result : Except Failure RunResult)

/-- The result of a launch that came to an end. -/
def Happening.result? : Happening → Option RunResult
  | .launched (.ok result) => some result
  | _ => none

/-- The result that comes back. -/
def Reply.result? : Except Failure Reply → Option RunResult
  | .ok (.finished result) => some result
  | _ => none

theorem Reply.result?_finished (result : Except Failure RunResult) :
    Reply.result? (result.map .finished) = result.toOption := by
  cases result with | error | ok => rfl

/-- The lines for the debug log that a result has of its own. -/
def RunResult.own (result : RunResult) : List Text :=
  ["[Oracle] cmd: " ++ Text.join [' '] result.command]
    ++ if result.code = 0 then [] else ["[Oracle] exit " ++ Text.ofInt result.code]

/-! ## Ledgers -/

/-- What a story leaves: the source in force, the toolchain kept, the lines that wait
    for a result to go out with, and how often a source was asked. -/
structure Ledger where
  source : ToolchainSource
  kept : Option Toolchain
  waiting : List Text
  asked : Nat

namespace Ledger

/-- What is left after one thing more has happened. -/
def note (ledger : Ledger) : Happening → Ledger
  | .configured given =>
      { ledger with source := given.getD ledger.source, kept := none, waiting := [] }
  | .asked _ (.error _) => { ledger with asked := ledger.asked + 1 }
  | .asked _ (.ok toolchain) =>
      { ledger with kept := some toolchain, waiting := toolchain.debug, asked := ledger.asked + 1 }
  | .launched _ => { ledger with waiting := [] }

/-- What a story leaves. -/
def noteAll (ledger : Ledger) (story : List Happening) : Ledger :=
  story.foldl note ledger

/-- What can come next. -/
inductive Allows (ledger : Ledger) : Happening → Prop
  | configured (given : Option ToolchainSource) : Allows ledger (.configured given)
  | asked (answer : Except Failure Toolchain) (hkept : ledger.kept = none) :
      Allows ledger (.asked ledger.source answer)
  | failed (failure : Failure) : Allows ledger (.launched (.error failure))
  | finished (result : RunResult) (hdebug : result.debug = ledger.waiting ++ result.own) :
      Allows ledger (.launched (.ok result))

/-- A story in which each thing can come after those before it. -/
def Lawful (ledger : Ledger) : List Happening → Prop
  | [] => True
  | happening :: story => ledger.Allows happening ∧ (ledger.note happening).Lawful story

variable {ledger : Ledger} {story before between after : List Happening} {happening : Happening}

@[simp] theorem noteAll_nil (ledger : Ledger) : ledger.noteAll [] = ledger := rfl

@[simp] theorem noteAll_cons (ledger : Ledger) (happening : Happening) (story : List Happening) :
    ledger.noteAll (happening :: story) = (ledger.note happening).noteAll story := rfl

theorem noteAll_append (ledger : Ledger) (before after : List Happening) :
    ledger.noteAll (before ++ after) = (ledger.noteAll before).noteAll after :=
  List.foldl_append

theorem lawful_append :
    ledger.Lawful (before ++ after)
      ↔ ledger.Lawful before ∧ (ledger.noteAll before).Lawful after := by
  induction before generalizing ledger with
  | nil => simp only [List.nil_append, Lawful, noteAll_nil, true_and]
  | cons happening before ih =>
      simp only [List.cons_append, Lawful, noteAll_cons, ih, and_assoc]

/-- Each thing that happens can come after those before it. -/
theorem Lawful.allows (h : ledger.Lawful (before ++ happening :: after)) :
    (ledger.noteAll before).Allows happening :=
  (lawful_append.mp h).2.1

/-! ## From one configuration to the next -/

/-- A source stays in force until the next configuration. -/
theorem source_noteAll (hstory : ∀ given, .configured given ∉ story) :
    (ledger.noteAll story).source = ledger.source := by
  induction story generalizing ledger with
  | nil => rfl
  | cons happening story ih =>
      rw [noteAll_cons, ih fun given h => hstory given (List.mem_cons_of_mem _ h)]
      cases happening with
      | configured given => exact absurd List.mem_cons_self (hstory given)
      | asked source answer => cases answer with | error | ok => rfl
      | launched result => rfl

/-- As long as a toolchain is kept there are only launches. The lines that wait are
    gone after the first of them, however it ends. -/
theorem Lawful.kept (h : ledger.Lawful story) {toolchain : Toolchain}
    (hkept : ledger.kept = some toolchain) (hstory : ∀ given, .configured given ∉ story) :
    (∀ happening ∈ story, ∃ result, happening = .launched result)
      ∧ (ledger.noteAll story).kept = some toolchain
      ∧ (ledger.noteAll story).waiting = if story = [] then ledger.waiting else [] := by
  induction story generalizing ledger with
  | nil => exact ⟨fun _ h => absurd h List.not_mem_nil, hkept, (if_pos rfl).symm⟩
  | cons happening story ih =>
      rcases h with ⟨hallows, hlater⟩
      have hlaunched : ∃ result, happening = .launched result := by
        cases hallows with
        | configured given => exact absurd List.mem_cons_self (hstory given)
        | asked answer hnone =>
            rw [hkept] at hnone
            exact absurd hnone (by simp only [reduceCtorEq, not_false_eq_true])
        | failed failure => exact ⟨_, rfl⟩
        | finished result hdebug => exact ⟨_, rfl⟩
      have hrest := ih hlater (by rcases hlaunched with ⟨result, rfl⟩; exact hkept)
        fun given h => hstory given (List.mem_cons_of_mem _ h)
      rcases hlaunched with ⟨result, rfl⟩
      refine ⟨List.forall_mem_cons.mpr ⟨⟨result, rfl⟩, hrest.1⟩, hrest.2.1, ?_⟩
      rw [noteAll_cons, hrest.2.2, if_neg (List.cons_ne_nil _ _)]
      exact ite_self _

/-- A toolchain that is kept was resolved since the last configuration. -/
theorem resolved_of_kept (hledger : ledger.kept = none) {toolchain : Toolchain}
    (hkept : (ledger.noteAll story).kept = some toolchain) :
    ∃ before source between, story = before ++ .asked source (.ok toolchain) :: between
      ∧ ∀ given, .configured given ∉ between := by
  induction story using List.reverseRecOn with
  | nil =>
      rw [noteAll_nil, hledger] at hkept
      exact absurd hkept (by simp only [reduceCtorEq, not_false_eq_true])
  | append_singleton story happening ih =>
      rw [noteAll_append] at hkept
      -- What neither configures nor resolves leaves the toolchain that was kept before.
      have hearlier (h : (ledger.noteAll story).kept = some toolchain)
          (hhappening : ∀ given, .configured given ≠ happening) :
          ∃ before source between,
            story ++ [happening] = before ++ .asked source (.ok toolchain) :: between
              ∧ ∀ given, .configured given ∉ between := by
        rcases ih h with ⟨before, source, between, rfl, hbetween⟩
        refine ⟨before, source, between ++ [happening], ?_, fun given h => ?_⟩
        · rw [List.append_assoc, List.cons_append]
        · rcases List.mem_append.mp h with h | h
          · exact hbetween given h
          · exact hhappening given (List.mem_singleton.mp h)
      cases happening with
      | configured given =>
          exact absurd hkept (by simp only [noteAll_cons, noteAll_nil, note, reduceCtorEq,
            not_false_eq_true])
      | asked source answer =>
          cases answer with
          | error failure => exact hearlier hkept fun given => Happening.noConfusion
          | ok resolved =>
              rw [noteAll_cons, noteAll_nil, note, Option.some.injEq] at hkept
              rw [hkept]
              exact ⟨story, source, [], rfl, fun given => List.not_mem_nil⟩
      | launched result => exact hearlier hkept fun given => Happening.noConfusion

/-- Without a toolchain there are no lines that wait. -/
theorem waiting_noteAll (hledger : ledger.kept = none → ledger.waiting = [])
    (hkept : (ledger.noteAll story).kept = none) : (ledger.noteAll story).waiting = [] := by
  induction story generalizing ledger with
  | nil => exact hledger hkept
  | cons happening story ih =>
      refine ih (fun h => ?_) hkept
      cases happening with
      | configured given => rfl
      | asked source answer =>
          cases answer with
          | error failure => exact hledger h
          | ok toolchain => exact absurd h (by simp only [note, reduceCtorEq, not_false_eq_true])
      | launched result => rfl

end Ledger

/-! ## Requests with any answers -/

namespace Invoker

variable (answers : Answers) (invoker : Invoker) (host : Host)

/-- What happens when the toolchain is asked for. -/
def asking : List Happening :=
  match invoker.kept with
  | some _ => []
  | none => [.asked invoker.source (answers invoker.source host).2]

/-- What happens when a query is launched. -/
def executing (invocation : Invocation) : List Happening :=
  if invocation.extra.isEmpty then
    invoker.asking answers host ++
      match invoker.toolchain host answers with
      | (_, _, .error _) => []
      | (invoker, host, .ok toolchain) =>
          [.launched (invoker.launch host { invocation with extra := toolchain.environment }).1]
  else [.launched (invoker.launch host invocation).1]

end Invoker

namespace Usage

variable {σ : Type} (answers : Answers) (usage : Usage σ)

/-- The results that come back from several requests, in order. -/
def results (usage : Usage σ) : List (Request σ) → List RunResult
  | [] => []
  | request :: requests =>
      (Reply.result? (usage.perform request answers).1).toList
        ++ (usage.after request answers).results requests

/-- What happens at a request. -/
def happenings : Request σ → List Happening
  | .execute invocation => usage.invoker.executing answers usage.host invocation
  | .run mode target prompt =>
      match usage.invoker.prepare usage.host mode target prompt usage.state with
      | (.error _, _, _) => []
      | (.ok invocation, invoker, _) => invoker.executing answers usage.host invocation
  | .toolchain => usage.invoker.asking answers usage.host
  | .configure _ source => [.configured source]
  | _ => []

/-- All that happens at several requests. -/
def story (usage : Usage σ) : List (Request σ) → List Happening
  | [] => []
  | request :: requests =>
      usage.happenings answers request ++ (usage.after request answers).story requests

end Usage

/-! ## Stories are lawful -/

namespace Invoker

variable {σ : Type} (answers : Answers) (invoker : Invoker) (host : Host)

/-- What an invoker knows of its story. -/
def ledger : Ledger :=
  ⟨invoker.source, invoker.kept, invoker.pending, invoker.asked⟩

theorem prepare_ledger (mode : Text) (target : EditorTarget) (prompt : Option (Prompt σ))
    (state : σ) :
    (invoker.prepare host mode target prompt state).2.1.ledger = invoker.ledger := by
  rw [prepare_invoker]
  rfl

theorem asking_lawful :
    invoker.ledger.Lawful (invoker.asking answers host)
      ∧ (invoker.toolchain host answers).1.ledger
        = invoker.ledger.noteAll (invoker.asking answers host) := by
  unfold asking toolchain
  cases hkept : invoker.kept with
  | some toolchain => exact ⟨trivial, rfl⟩
  | none =>
      refine ⟨⟨.asked _ hkept, trivial⟩, ?_⟩
      simp only
      rcases answers invoker.source host with ⟨asked, failure | toolchain⟩
      · simp only [Ledger.noteAll_cons, Ledger.noteAll_nil, Ledger.note, ledger, hkept]
      · rfl

/-- The lines that wait go out before the result's own. -/
theorem resultOf_debug {invocation : Invocation} {command waiting : List Text}
    {outcome : LaunchOutcome} {result : RunResult}
    (h : resultOf invocation command (waiting ++ ["[Oracle] cmd: " ++ Text.join [' '] command])
      outcome = .ok result) : result.debug = waiting ++ result.own := by
  rcases resultOf_ok h with ⟨code, output, errors, -, rfl⟩
  simp only [RunResult.own]
  split
  · rw [List.append_nil]
  · rw [List.append_assoc]

/-- A launch takes the lines that wait, and they go out with its result. -/
theorem launch_lawful (invocation : Invocation) :
    invoker.ledger.Lawful [.launched (invoker.launch host invocation).1]
      ∧ (invoker.launch host invocation).2.1.ledger
        = invoker.ledger.noteAll [.launched (invoker.launch host invocation).1] := by
  refine ⟨⟨?_, trivial⟩, rfl⟩
  cases hresult : (invoker.launch host invocation).1 with
  | error failure => exact .failed failure
  | ok result => exact .finished result (resultOf_debug hresult)

theorem executing_lawful (invocation : Invocation) :
    invoker.ledger.Lawful (invoker.executing answers host invocation)
      ∧ (invoker.execute host invocation answers).2.1.ledger
        = invoker.ledger.noteAll (invoker.executing answers host invocation) := by
  unfold executing execute
  by_cases hextra : invocation.extra.isEmpty = true
  · have hasking := invoker.asking_lawful answers host
    rw [if_pos hextra, if_pos hextra]
    rcases hobtained : invoker.toolchain host answers with ⟨asking, asked, failure | toolchain⟩
    · rw [hobtained] at hasking
      simp only [List.append_nil]
      exact hasking
    · rw [hobtained] at hasking
      have hlaunch := asking.launch_lawful asked { invocation with extra := toolchain.environment }
      rw [hasking.2] at hlaunch
      rw [Ledger.lawful_append, Ledger.noteAll_append]
      exact ⟨⟨hasking.1, hlaunch.1⟩, hlaunch.2⟩
  · rw [if_neg hextra, if_neg hextra]
    exact invoker.launch_lawful host invocation

/-- The one result of a query is that of the launch, if the tool is launched at
    all. -/
theorem executing_results (invocation : Invocation) :
    (invoker.executing answers host invocation).filterMap Happening.result?
      = (invoker.execute host invocation answers).1.toOption.toList := by
  have hlaunched (result : Except Failure RunResult) :
      [Happening.launched result].filterMap Happening.result? = result.toOption.toList := by
    cases result with | error | ok => rfl
  have hasking : (invoker.asking answers host).filterMap Happening.result? = [] := by
    unfold asking
    split
    · rfl
    · rfl
  unfold executing execute
  by_cases hextra : invocation.extra.isEmpty = true
  · rw [if_pos hextra, if_pos hextra, List.filterMap_append, hasking, List.nil_append]
    rcases invoker.toolchain host answers with ⟨equipped, asked, failure | toolchain⟩
    · rfl
    · exact hlaunched _
  · rw [if_neg hextra, if_neg hextra]
    exact hlaunched _

end Invoker

namespace Usage

variable {σ : Type} (answers : Answers) (usage : Usage σ)

/-- The result that comes back from a request is that of the one launch that gave
    one. -/
theorem happenings_results (request : Request σ) :
    (usage.happenings answers request).filterMap Happening.result?
      = (Reply.result? (usage.perform request answers).1).toList := by
  cases request with
  | setScope candidate =>
      simp only [happenings, perform]
      split
      · rfl
      · rfl
  | ensureScope prompt =>
      simp only [happenings, perform]
      split
      · rfl
      · rfl
  | setLimit | offer | meanwhile | configure => rfl
  | prepare mode target prompt =>
      simp only [happenings, perform]
      rcases usage.invoker.prepare usage.host mode target prompt usage.state with
        ⟨failure | invocation, preparing, after⟩
      · rfl
      · rfl
  | execute invocation =>
      simp only [happenings, perform, Reply.result?_finished]
      exact usage.invoker.executing_results answers usage.host invocation
  | run mode target prompt =>
      simp only [happenings, perform, Invoker.run, Reply.result?_finished]
      rcases usage.invoker.prepare usage.host mode target prompt usage.state with
        ⟨failure | invocation, preparing, after⟩
      · rfl
      · exact preparing.executing_results answers usage.host invocation
  | toolchain =>
      simp only [happenings, perform, Invoker.asking, Invoker.toolchain]
      cases usage.invoker.kept with
      | some toolchain => rfl
      | none =>
          simp only
          rcases answers usage.invoker.source usage.host with ⟨asked, failure | toolchain⟩
          · rfl
          · rfl

/-- The results in a story are those that come back, in order. -/
theorem story_results (requests : List (Request σ)) :
    (usage.story answers requests).filterMap Happening.result?
      = usage.results answers requests := by
  induction requests generalizing usage with
  | nil => rfl
  | cons request requests ih =>
      rw [story, results, List.filterMap_append, happenings_results, ih]

/-- What happens at a request is lawful, and leaves what the request leaves. -/
theorem happenings_lawful (request : Request σ) :
    usage.invoker.ledger.Lawful (usage.happenings answers request)
      ∧ (usage.after request answers).invoker.ledger
        = usage.invoker.ledger.noteAll (usage.happenings answers request) := by
  cases request with
  | setScope candidate =>
      refine ⟨trivial, ?_⟩
      simp only [happenings, after, perform]
      split
      · rfl
      · rfl
  | ensureScope prompt =>
      refine ⟨trivial, ?_⟩
      simp only [happenings, after, perform]
      split
      · rfl
      · rfl
  | setLimit | offer | meanwhile => exact ⟨trivial, rfl⟩
  | prepare mode target prompt =>
      exact ⟨trivial, usage.invoker.prepare_ledger usage.host mode target prompt usage.state⟩
  | execute invocation => exact usage.invoker.executing_lawful answers usage.host invocation
  | run mode target prompt =>
      have hledger := usage.invoker.prepare_ledger usage.host mode target prompt usage.state
      simp only [happenings, after, perform, Invoker.run]
      rcases hprepare : usage.invoker.prepare usage.host mode target prompt usage.state with
        ⟨failure | invocation, preparing, after⟩
      · rw [hprepare] at hledger
        exact ⟨trivial, hledger⟩
      · rw [hprepare] at hledger
        rw [← hledger]
        exact preparing.executing_lawful answers usage.host invocation
  | toolchain => exact usage.invoker.asking_lawful answers usage.host
  | configure command source => exact ⟨⟨.configured source, trivial⟩, rfl⟩

/-- All that happens at several requests is lawful, and leaves what they leave. -/
theorem story_lawful (requests : List (Request σ)) :
    usage.invoker.ledger.Lawful (usage.story answers requests)
      ∧ (usage.follow requests answers).invoker.ledger
        = usage.invoker.ledger.noteAll (usage.story answers requests) := by
  induction requests generalizing usage with
  | nil => exact ⟨trivial, rfl⟩
  | cons request requests ih =>
      have hfirst := usage.happenings_lawful answers request
      have hlater := ih (usage.after request answers)
      rw [hfirst.2] at hlater
      rw [story, Ledger.lawful_append, Ledger.noteAll_append]
      exact ⟨⟨hfirst.1, hlater.1⟩, hlater.2⟩

end Usage

end QueryDesk
