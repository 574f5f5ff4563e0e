import QueryDesk.Proofs.Desk.Chronicle
import QueryDesk.Proofs.Desk.Deeds
import QueryDesk.Proofs.Query.Launched
import QueryDesk.Proofs.Query.Sources
import QueryDesk.Proofs.Settings.SearchPath

/-!
# The search path the tool is launched with

A search path with entries that is configured comes before all others, so every toolchain
that is resolved has it, and no answer of the compiler and no variable of the host makes a
difference. A toolchain that is kept was resolved for the configuration in force. So it
stays as long as nothing is configured, whatever else is done to the workbench.

The tool is told by its environment, which has the toolchain's variables put over those of
the host. This holds because no query of the workbench has variables of its own: those take
the place of the toolchain's.

## Main definitions

* `Launch.Equips`: A launch of the tool for a query, with a search path.
* `Invoker.Seeks`: All toolchains of an invoker have a search path.
* `Workbench.Plain`: No query that waits has variables of its own.
* `Workbench.Equipped`: A search path is in force.
* `Workbench.Continues`: Nothing happened to the configuration.

## Theorems

* `resolveToolchain_searchPath`: A search path that is configured is that of the toolchain.
* `Seeks.execute`: What is launched for a query.
* `perform_continues`: Only running and configuring touch the toolchain.
* `Equipped.work`: What is launched for the queries that wait.
* `perform_plain`, `perform_equipped`: What every action keeps.
* `follow_keeps`: What every action keeps is there after every run.
* `configured_path_reaches_tool`: From the settings file to the tool's environment.
-/

namespace QueryDesk

/-- The tool is launched for a query, and finds the entries of a search path in its
    environment with colons between them. -/
structure Launch.Equips (launch : Launch) (invocation : Invocation) (path : List Text) : Prop where
  command : ∃ tool, launch.command = invocation.arguments tool
  environment : ∃ entries, launch.environment = some entries
    ∧ Table.get? "GOPATH" entries = some (Text.join [':'] path)

/-! ## Toolchains -/

/-- A search path that is configured is that of the toolchain, whatever the compiler
    answers and the environment has. -/
theorem Host.resolveToolchain_searchPath {host after : Host} {request : ToolchainRequest}
    {toolchain : Toolchain} (hpath : request.searchPath ≠ [])
    (h : host.resolveToolchain request = (after, .ok toolchain)) :
    toolchain.searchPath = request.searchPath := by
  have hresolves := host.resolveToolchain_resolves request
  simp only [h] at hresolves
  have hchosen : ∃ report, host.Chooses request report toolchain := by
    cases hresolves with
    | configured _ _ hchosen => exact ⟨.silent [], hchosen _⟩
    | unasked _ hchosen => exact ⟨_, hchosen⟩
    | asked _ _ hchosen => exact ⟨_, hchosen⟩
  rcases hchosen with ⟨report, -, hsecond⟩
  rw [hsecond, Text.firstFilled_cons _ hpath]

namespace Invoker

/-- All toolchains of an invoker have a search path: it is what the source is asked for,
    and what a toolchain that is kept has. -/
structure Seeks (invoker : Invoker) (path : List Text) : Prop where
  source : ∃ request, invoker.source = .resolved request ∧ request.searchPath = path
  kept : ∀ toolchain, invoker.kept = some toolchain → toolchain.searchPath = path

variable {invoker : Invoker} {path : List Text}

theorem Seeks.toolchain (h : invoker.Seeks path) (hpath : path ≠ []) {host after : Host}
    {asking : Invoker} {result : Except Failure Toolchain}
    (htoolchain : invoker.toolchain host = (asking, after, result)) :
    asking.Seeks path ∧ ∀ toolchain, result = .ok toolchain → toolchain.searchPath = path := by
  have hends := invoker.toolchain_obtains host ToolchainSource.get
  rw [htoolchain] at hends
  cases hends with
  | kept hkept =>
      exact ⟨h, fun toolchain heq => h.kept toolchain (hkept.trans (congrArg some
        (Except.ok.inj heq)))⟩
  | failed hkept hget =>
      exact ⟨⟨h.source, h.kept⟩, fun _ heq => absurd heq (by simp only [reduceCtorEq,
        not_false_eq_true])⟩
  | resolved hkept hget =>
      rcases h.source with ⟨request, hsource, rfl⟩
      rw [hsource] at hget
      have hresolved := Host.resolveToolchain_searchPath hpath hget
      exact ⟨⟨h.source, fun _ heq => Option.some.inj heq ▸ hresolved⟩,
        fun _ heq => Except.ok.inj heq ▸ hresolved⟩

/-- For a query without variables of its own, the compiler is asked at most, and the tool
    is launched with the search path. -/
theorem Seeks.execute (h : invoker.Seeks path) (hpath : path ≠ []) (host : Host)
    {invocation : Invocation} (hextra : invocation.extra = []) :
    (invoker.execute host invocation).2.1.Seeks path
      ∧ ∃ launches, host.Launches (invoker.execute host invocation).2.2 launches
        ∧ ∀ launch ∈ launches, (∃ program, launch = Host.compilerQuestion program)
          ∨ launch.Equips invocation path := by
  have hends := invoker.execute_executes host invocation
  generalize invoker.execute host invocation = outcome at hends
  cases hends with
  | unequipped _ htoolchain =>
      rcases invoker.toolchain_asks host htoolchain with ⟨asked, hasks⟩
      rcases hasks.launches with ⟨hlaunches, hcompiler⟩
      exact ⟨(h.toolchain hpath htoolchain).1, asked, hlaunches,
        fun launch hlaunch => Or.inl (hcompiler launch hlaunch)⟩
  | @equipped asking after toolchain _ htoolchain =>
      rcases h.toolchain hpath htoolchain with ⟨hseeks, hsearchPath⟩
      rcases invoker.toolchain_asks host htoolchain with ⟨asked, hasks⟩
      rcases hasks.launches with ⟨hlaunches, hcompiler⟩
      refine ⟨⟨hseeks.source, hseeks.kept⟩, _, hlaunches.trans (Host.launch_launches _ _), ?_⟩
      intro launch hlaunch
      rcases List.mem_append.mp hlaunch with hlaunch | hlaunch
      · exact Or.inl (hcompiler launch hlaunch)
      · rw [List.mem_singleton.mp hlaunch]
        refine Or.inr ⟨⟨_, rfl⟩, _, rfl, ?_⟩
        rw [get?_environmentFor, ← hsearchPath toolchain rfl]
        rfl
  | own hown => exact absurd hextra hown

end Invoker

/-! ## The workbench -/

namespace Workbench

/-- No query that waits has variables of its own. -/
def Plain (bench : Workbench) : Prop :=
  ∀ entry ∈ bench.waiting, entry.2.extra = []

/-- A search path is in force: all toolchains have it, and all queries that wait take it
    from them. -/
structure Equipped (bench : Workbench) (path : List Text) : Prop where
  seeks : bench.invoker.Seeks path
  plain : bench.Plain

/-- Nothing happened to the configuration and to the toolchain, and a query that waits and
    did not wait before has no variables of its own. -/
structure Continues (bench after : Workbench) : Prop where
  source : after.invoker.source = bench.invoker.source
  kept : after.invoker.kept = bench.invoker.kept
  waiting : ∀ entry ∈ after.waiting, entry ∈ bench.waiting ∨ entry.2.extra = []

variable {bench after : Workbench} {path : List Text}

theorem Continues.refl (bench : Workbench) : bench.Continues bench :=
  ⟨rfl, rfl, fun _ h => Or.inl h⟩

theorem Continues.plain (h : bench.Continues after) (hplain : bench.Plain) : after.Plain :=
  fun entry hentry => (h.waiting entry hentry).elim (hplain entry) id

theorem Continues.equipped (h : bench.Continues after) (hequipped : bench.Equipped path) :
    after.Equipped path where
  seeks := ⟨h.source ▸ hequipped.seeks.source, h.kept ▸ hequipped.seeks.kept⟩
  plain := h.plain hequipped.plain

/-! ## Actions -/

theorem run_continues (bench : Workbench) (mode : Text) (target : Option EditorTarget) :
    bench.Continues (bench.run mode target).state := by
  unfold run
  cases target with
  | none => exact .refl bench
  | some target =>
      have hends : bench.invoker.Prepares bench.host mode target (some bench.asker.prompt)
          bench.user (bench.invoker.prepare bench.host mode target (some bench.asker.prompt)
            bench.user) := Invoker.prepare_prepares bench.invoker bench.host
      simp only
      generalize bench.invoker.prepare bench.host mode target (some bench.asker.prompt)
        bench.user = outcome at hends
      cases hends with
      | unfit hunfit => exact ⟨rfl, rfl, fun _ h => Or.inl h⟩
      | unscoped hproper hensure => exact ⟨rfl, rfl, fun _ h => Or.inl h⟩
      | @undescribed scope session left failure hproper hensure hdescribe =>
          cases failure with
          | query refusal => exact ⟨rfl, rfl, fun _ h => Or.inl h⟩
          | _ => exact ⟨rfl, rfl, fun _ h => Or.inl h⟩
      | ready hproper hensure hdescribe =>
          unfold start
          simp only
          split
          · exact ⟨rfl, rfl, fun _ h => Or.inl h⟩
          · refine ⟨rfl, rfl, fun entry hentry => ?_⟩
            rcases List.mem_append.mp hentry with hentry | hentry
            · exact Or.inl hentry
            · exact Or.inr (by rw [List.mem_singleton.mp hentry])

/-- Only running and configuring touch the toolchain. -/
theorem perform_continues (bench : Workbench) {action : Action}
    (hwork : ∀ count, action ≠ .work count) (hconfigure : ∀ values, action ≠ .configure values) :
    bench.Continues (bench.perform action).state := by
  cases action with
  | query mode target => exact run_continues bench mode target
  | work count => exact absurd rfl (hwork count)
  | drain =>
      rcases collect_state bench bench.results with ⟨user, panel, left, hstate⟩
      have hdrain : (bench.perform .drain).state = { bench with user, panel, results := left } :=
        hstate
      rw [hdrain]
      exact ⟨rfl, rfl, fun _ h => Or.inl h⟩
  | gesture gesture => exact ⟨rfl, rfl, fun _ h => Or.inl h⟩
  | setScope =>
      rcases askScope_state bench.session.scope (bench.user.answers.length + 1) bench with
        ⟨user, session, hstate⟩
      have hscope : (bench.perform .setScope).state
          = { bench with user, invoker := { bench.invoker with session } } := hstate
      rw [hscope]
      exact ⟨rfl, rfl, fun _ h => Or.inl h⟩
  | configure values => exact absurd rfl (hconfigure values)
  | meanwhile host user => exact ⟨rfl, rfl, fun _ h => Or.inl h⟩

/-- Running the queries that wait leaves the search path in force. The compiler is asked
    at most, and each other launch is one of the tool for a query, with the search path. -/
theorem Equipped.work (h : bench.Equipped path) (hpath : path ≠ []) (count : Nat) :
    (bench.work count).Equipped path
      ∧ ∃ launches, bench.host.Launches (bench.work count).host launches
        ∧ ∀ launch ∈ launches, (∃ program, launch = Host.compilerQuestion program)
          ∨ ∃ entry ∈ bench.waiting, launch.Equips entry.2 path := by
  induction count generalizing bench with
  | zero => exact ⟨h, [], .refl _, fun _ h => absurd h List.not_mem_nil⟩
  | succ count ih =>
      unfold Workbench.work
      split
      · exact ⟨h, [], .refl _, fun _ h => absurd h List.not_mem_nil⟩
      next number invocation waiting hwaiting =>
      have hfirst : (number, invocation) ∈ bench.waiting := hwaiting ▸ List.mem_cons_self
      have hlater : ∀ entry ∈ waiting, entry ∈ bench.waiting := fun entry hentry =>
        hwaiting ▸ List.mem_cons_of_mem _ hentry
      rcases h.seeks.execute hpath bench.host (h.plain _ hfirst) with
        ⟨hseeks, launches, hlaunches, hserve⟩
      generalize bench.invoker.execute bench.host invocation = outcome at hseeks hlaunches
      rcases outcome with ⟨result, invoker, host⟩
      -- The other queries run on what the first one leaves.
      have hnext : Equipped { bench with
          invoker, host, waiting
          results := bench.results ++ [(number, result)] } path :=
        ⟨hseeks, fun entry hentry => h.plain entry (hlater entry hentry)⟩
      rcases ih hnext with ⟨hequipped, others, hothers, hrest⟩
      refine ⟨hequipped, launches ++ others, hlaunches.trans hothers, fun launch hlaunch => ?_⟩
      rcases List.mem_append.mp hlaunch with hlaunch | hlaunch
      · exact (hserve launch hlaunch).imp_right fun hequips => ⟨_, hfirst, hequips⟩
      · exact (hrest launch hlaunch).imp_right fun ⟨entry, hentry, hequips⟩ =>
          ⟨entry, hlater entry hentry, hequips⟩

/-- No action makes a query wait that has variables of its own. -/
theorem perform_plain (bench : Workbench) (action : Action) (h : bench.Plain) :
    (bench.perform action).state.Plain := by
  cases action with
  | work count =>
      rcases work_ran bench count with ⟨done, waiting, answers, hwaiting, -, -, halike⟩
      intro entry hentry
      have hleft : (bench.work count).waiting = waiting := halike.waiting
      refine h entry (hwaiting ▸ List.mem_append_right done ?_)
      exact hleft ▸ hentry
  | configure values =>
      intro entry hentry
      exact h entry ((configure_moves bench values).1.waiting ▸ hentry)
  | query | drain | gesture | setScope | meanwhile =>
      exact (perform_continues bench (fun _ => by simp only [ne_eq, reduceCtorEq,
        not_false_eq_true]) (fun _ => by simp only [ne_eq, reduceCtorEq,
        not_false_eq_true])).plain h

/-- A search path stays in force until something is configured. -/
theorem perform_equipped (hpath : path ≠ []) (bench : Workbench) (action : Action)
    (hconfigure : ∀ values, action ≠ .configure values) (h : bench.Equipped path) :
    (bench.perform action).state.Equipped path := by
  by_cases hwork : ∃ count, action = .work count
  · rcases hwork with ⟨count, rfl⟩
    exact (h.work hpath count).1
  · exact (perform_continues bench (not_exists.mp hwork) hconfigure).equipped h

/-- A search path is in force once it is configured. -/
theorem configure_equipped (h : bench.Plain) (values : Section) :
    (bench.configure values).state.Equipped (requestOf values).searchPath := by
  rcases configure_state bench values with ⟨session, panel, focusPanel, _, hstate⟩
  rw [hstate]
  -- The answer that was kept is forgotten, so go is asked for the new paths.
  refine ⟨⟨⟨_, rfl, rfl⟩, fun _ heq => absurd heq ?_⟩, h⟩
  simp only [Invoker.configure, reduceCtorEq, not_false_eq_true]

/-! ## Runs -/

/-- What every action keeps is there after every run. -/
theorem follow_keeps {P : Workbench → Prop} {actions : List Action}
    (hkeeps : ∀ bench, ∀ action ∈ actions, P bench → P (bench.perform action).state)
    (h : P bench) : P (bench.follow actions).bench := by
  have hrun : ∀ log : Chronicle, P log.bench → P (actions.foldl Chronicle.step log).bench := by
    induction actions with
    | nil => exact fun log hlog => hlog
    | cons action actions ih =>
        intro log hlog
        refine ih (fun bench other hother => hkeeps bench other (List.mem_cons_of_mem _ hother))
          (log.step action) ?_
        exact hkeeps log.bench action List.mem_cons_self hlog
  exact hrun ⟨bench, [], [], []⟩ h

/-- For every text and every list of values as a search path, what is made of it for use is
    its entries without those that are repeated, in their order. They have no blanks around
    them, none is empty, no two are equal, and neither of the two ways to cut a path changes
    them. When there are any, and the settings with this path have been loaded and taken
    over, then from there to the next configuration every launch is a question to the
    compiler or one of the tool for a query that waits, and the tool finds just these
    entries, with colons between them: whatever was done before and is done later, whatever
    the compiler answers, and whatever the environment is. -/
theorem configured_path_reaches_tool (value : Json) (hvalue : value.GivesPath) :
    let path := Settings.searchPath value
    path = (Gopath.split value).eraseDups
      ∧ path.Nodup ∧ (∀ entry ∈ path, entry.Proper)
      ∧ Settings.searchPath (.arr (path.map .str)) = path
      ∧ Gopath.split (.arr (path.map .str)) = path
      ∧ (path ≠ [] → ∀ settings host, Settings.LoadsPath settings host value →
        ∀ (bench : Workbench) (before later : List Action) (count : Nat), bench.Unused →
          (∀ values, .configure values ∉ later) →
          let values := Settings.config (Settings.load settings host).1
          let configured := ((bench.follow before).bench.configure values).state
          let last := (configured.follow later).bench
          ∃ launches, last.host.Launches (last.work count).host launches
            ∧ ∀ launch ∈ launches, (∃ program, launch = Host.compilerQuestion program)
              ∨ ∃ entry ∈ last.waiting, launch.Equips entry.2 path) := by
  intro path
  rcases Settings.searchPath_proper value with ⟨hnodup, hproper⟩
  refine ⟨Settings.searchPath_eq_eraseDups hvalue, hnodup, hproper,
    Settings.searchPath_of_proper hnodup hproper, Gopath.split_of_proper hproper, ?_⟩
  intro hpath settings host hloads bench before later count hunused hlater values configured last
  have hplain : (bench.follow before).bench.Plain :=
    follow_keeps (fun bench action _ => perform_plain bench action)
      fun entry hentry => absurd (hunused.waiting ▸ hentry) List.not_mem_nil
  have hconfigured : configured.Equipped path := by
    rw [show path = (requestOf values).searchPath from (Settings.requestOf_load hloads).symm]
    exact configure_equipped hplain values
  have hlast : last.Equipped path :=
    follow_keeps (fun bench action haction => perform_equipped hpath bench action
      fun values heq => hlater values (heq ▸ haction)) hconfigured
  exact (hlast.work hpath count).2

/-- The search path in a file is a list of values of several kinds, and what is left of it
    are two entries. The tool is launched with them for a query that was taken before, after
    the compiler answered another path and where the environment has a third one. -/
theorem listed_path_reaches_tool :
    let file := Host.holding "settings.json" (Utf8.encode
      "\x7b\"oracle\": \x7b\"gopath\": [\"/a\", [1, null], false, \" /a\\u3000\"]\x7d\x7d")
    let settings := SettingsStore.fresh (FilePath.parse "/settings.json") Settings.defaults true
    let bench := twoFiles []
    let host : Host := { bench.host with
      environment := [("GOPATH", "/env")]
      outcomes := [.exited 0 (Utf8.encode "/go\n/asked\n") [], .exited 0 [] []] }
    let values := Settings.config (Settings.load settings file).1
    let configured := ((bench.follow [askAbout "/a/x.go"]).bench.configure values).state
    let last := (configured.follow [.meanwhile host ⟨[], []⟩]).bench
    ∃ asked launch entries, (last.work 1).host.launches = [asked, launch]
      ∧ launch.environment = some entries
      ∧ Table.get? "GOPATH" entries = some "/a:[1, None]" := by
  intro file settings bench host values configured last
  let value : Json := .arr [.str "/a", .arr [.int 1, .null], .bool false, .str " /a\u3000"]
  have hread : settings.readFile file = .ok [("oracle", .obj [("gopath", value)])] := by cbv
  have hloads : Settings.LoadsPath settings file value := {
    defaults := rfl
    persistent := rfl
    stored := by rw [SettingsStore.stored?, hread]; rfl
    loaded := by cbv }
  have hpath : Settings.searchPath value = ["/a", "[1, None]"] := by decide +kernel
  have hvalues : Settings.config (Settings.load settings file).1 = Section.ofFields [
      ("command", .str "oracle"), ("go_command", .str "go"), ("goroot", .str []),
      ("gopath", .arr [.str "/a", .str "[1, None]"]), ("history_limit", .int 32),
      ("panel_max_lines", .int 20), ("focus_panel", .bool true)] := by cbv
  have hkinds : (last.work 1).host.launches.map (·.environment.isSome) = [false, true] := by
    simp only [last, configured, values, hvalues]
    decide +kernel
  rcases (configured_path_reaches_tool value (.list _)).2.2.2.2.2
    (by rw [hpath]; exact List.cons_ne_nil _ _) settings file hloads bench
    [askAbout "/a/x.go"] [.meanwhile host ⟨[], []⟩] 1 (unused_twoFiles [])
    (fun _ => by simp only [List.mem_singleton, reduceCtorEq, not_false_eq_true]) with
    ⟨launches, ⟨outcomes, hafter⟩, hlaunches⟩
  -- Nothing was launched on the host before.
  have hall : (last.work 1).host.launches = launches := congrArg Host.launches hafter
  rw [hall] at hkinds ⊢
  rcases List.map_eq_cons_iff.mp hkinds with ⟨asked, rest, rfl, -, hrest⟩
  rcases List.map_eq_cons_iff.mp hrest with ⟨launch, rest, rfl, htool, hrest⟩
  rw [List.map_eq_nil_iff.mp hrest] at hlaunches ⊢
  rcases hlaunches launch (List.mem_cons_of_mem _ List.mem_cons_self) with
    ⟨program, hcompiler⟩ | ⟨entry, -, hequips⟩
  · rw [hcompiler] at htool
    exact absurd htool Bool.false_ne_true
  · rcases hequips.environment with ⟨entries, hentries, hfound⟩
    rw [hpath] at hfound
    exact ⟨asked, launch, entries, rfl, hentries, hfound⟩

end Workbench

end QueryDesk
