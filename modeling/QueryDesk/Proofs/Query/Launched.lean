import QueryDesk.Proofs.Files.Directory
import QueryDesk.Proofs.Query.Requests
import QueryDesk.Proofs.Table
import QueryDesk.Proofs.Text.Word

/-!
# What the tool is launched with

A run launches the tool at most once, perhaps after a question to the compiler. The
arguments of the tool are a position, a question, and the words of the scope that
was in force when the query was put together. There is at least one word: trimming
and cutting into words agree on what a blank is, so whatever was put into force has
one, and a session that begins without a scope of blanks never gets one.

The tool is started in the directory of the queried file. Its environment is the
host's, but for the three variables of the toolchain, and the host's own is never
changed.

## Main definitions

* `Session.HasWord`: The session has no scope, or one that is not blank.
* `Launch.Puts`: A launch of the tool that puts a query to it.

## Theorems

* `hasWord_after`, `hasWord_follow`: No request puts blanks into force.
* `get?_environmentFor`: What the tool finds in its environment.
* `launch_puts`, `execute_puts`: A launch of a query that was put together.
* `run_cases`: A run launches nothing, or a query with words in its scope.
* `run_puts`: What a run launches after any requests.
-/

namespace QueryDesk

/-- There is no scope, or one that is not blank. -/
def Session.HasWord (session : Session) : Prop :=
  session.scope = [] ∨ ∃ c ∈ session.scope, Text.isBlank c = false

/-- The launch puts a question about a position to the tool, with the words of a
    scope and the variables of a toolchain in an environment. -/
structure Launch.Puts (launch : Launch) (tool : Text) (question : Mode) (position : Descriptor)
    (scope : Text) (toolchain : Toolchain) (environment : Table Text) : Prop where
  command : ∃ words, launch.command
      = tool :: ("-pos=" ++ position.format) :: ("-mode=" ++ question.name) :: words
    ∧ words ≠ [] ∧ (∀ word ∈ words, word ≠ [] ∧ ∀ c ∈ word, Text.isBlank c = false)
    ∧ Text.IsWords scope words
  directory : launch.directory = some (Path.dirName position.path)
  environment : ∃ entries, launch.environment = some entries
    ∧ Table.get? "GOROOT" entries = some toolchain.root
    ∧ Table.get? "GOPATH" entries = some (Text.join [':'] toolchain.searchPath)
    ∧ Table.get? "CGO_ENABLED" entries = some "0"
    ∧ ∀ name : Text, name ≠ "GOROOT" → name ≠ "GOPATH" → name ≠ "CGO_ENABLED" →
      Table.get? name entries = Table.get? name environment

/-! ## One launch -/

/-- What the tool finds in its environment: the variables of a toolchain, and the
    host's others. -/
theorem Invoker.get?_environmentFor (host : Host) (invocation : Invocation)
    (toolchain : Toolchain) (name : Text) :
    Table.get? name (environmentFor host { invocation with extra := toolchain.environment })
      = (Table.get? name toolchain.environment).or (Table.get? name host.environment) := by
  have hkeys : toolchain.environment.map (·.1) = ["GOROOT", "GOPATH", "CGO_ENABLED"] := rfl
  have hnodup : (toolchain.environment.map (·.1)).Nodup := by
    rw [hkeys]
    decide
  exact Table.get?_update hnodup host.environment name

/-- A query about a file with an absolute path is put to the tool by its launch. -/
theorem Invoker.launch_puts (invoker : Invoker) (host : Host) (question : Mode) (scope : Text)
    (position : Descriptor) (toolchain : Toolchain)
    (hscope : ∃ c ∈ scope, Text.isBlank c = false)
    (hplaced : Path.isAbsolute position.path = true) :
    ∃ launch, ((invoker.launch host ⟨question.name, scope, position, toolchain.environment⟩).2.2
        = (host.launch launch).1)
      ∧ launch.Puts ((host.findExecutable invoker.command).orElse invoker.command) question
        position scope toolchain host.environment := by
  have hwords : Text.IsWords scope (Text.words scope) := (Text.isWords_iff scope _).mpr rfl
  have hfound : ∀ name, Table.get? name (environmentFor host
        ⟨question.name, scope, position, toolchain.environment⟩)
      = (Table.get? name toolchain.environment).or (Table.get? name host.environment) :=
    get?_environmentFor host ⟨question.name, scope, position, []⟩ toolchain
  refine ⟨_, rfl, ⟨Text.words scope, rfl, hwords.ne_nil hscope, hwords.proper, hwords⟩, ?_,
    ⟨_, rfl, ?_, ?_, ?_, ?_⟩⟩
  · have hdirectory : Path.dirName position.path ≠ [] := by
      intro hnil
      have habsolute := Path.isAbsolute_dirName position.path hplaced
      rw [hnil] at habsolute
      exact Bool.false_ne_true habsolute
    exact if_neg fun hempty => hdirectory (List.isEmpty_iff.mp hempty)
  · rw [hfound]
    rfl
  · rw [hfound]
    rfl
  · rw [hfound]
    rfl
  · intro name hroot hpath hcgo
    rw [hfound, Toolchain.environment, Table.get?, if_neg hroot.symm, Table.get?,
      if_neg hpath.symm, Table.get?, if_neg hcgo.symm]
    rfl

/-- A query that was put together is launched, perhaps after the compiler was asked,
    or it fails without a launch of the tool. -/
theorem Invoker.execute_puts (invoker : Invoker) (host : Host) (question : Mode) (scope : Text)
    (position : Descriptor) (hscope : ∃ c ∈ scope, Text.isBlank c = false)
    (hplaced : Path.isAbsolute position.path = true)
    {outcome : Except Failure RunResult × Invoker × Host}
    (houtcome : invoker.execute host ⟨question.name, scope, position, []⟩ = outcome) :
    ∃ asked launched, outcome.2.2.launches = host.launches ++ asked ++ launched
      ∧ (∀ launch ∈ asked, ∃ program, launch = Host.compilerQuestion program)
      ∧ (launched = [] ∧ (∃ failure, outcome.1 = .error failure)
        ∨ ∃ launch toolchain, launched = [launch] ∧ outcome.2.1.kept = some toolchain
          ∧ launch.Puts ((host.findExecutable invoker.command).orElse invoker.command) question
            position scope toolchain host.environment) := by
  have hends := invoker.execute_executes host ⟨question.name, scope, position, []⟩
  rw [houtcome] at hends
  cases hends with
  | @unequipped asking after failure hextra htoolchain =>
      rcases invoker.toolchain_asks host htoolchain with ⟨asked, hasks⟩
      rcases hasks.launches with ⟨⟨outcomes, hafter⟩, hcompiler⟩
      refine ⟨asked, [], ?_, hcompiler, .inl ⟨rfl, failure, rfl⟩⟩
      rw [List.append_nil, hafter]
  | @equipped asking after toolchain hextra htoolchain =>
      rcases invoker.kept_of_toolchain host htoolchain with ⟨hkept, hcommand⟩
      rcases invoker.toolchain_asks host htoolchain with ⟨asked, hasks⟩
      rcases hasks.launches with ⟨⟨outcomes, hafter⟩, hcompiler⟩
      rcases asking.launch_puts after question scope position toolchain hscope hplaced with
        ⟨launch, hlaunch, hputs⟩
      rcases after.launch_launches launch with ⟨left, hlaunched⟩
      refine ⟨asked, [launch], ?_, hcompiler, .inr ⟨launch, toolchain, rfl, hkept, ?_⟩⟩
      · rw [hlaunch, hlaunched, hafter]
      · -- Asking the compiler touched nothing of the host that counts for the launch.
        rw [hcommand, hafter] at hputs
        exact hputs
  | own hextra => exact absurd rfl hextra

namespace Usage

variable {σ : Type} (usage : Usage σ)

/-! ## Scopes with words -/

/-- No request puts blanks into force. -/
theorem hasWord_after (h : usage.session.HasWord) (request : Request σ) :
    (usage.after request).session.HasWord := by
  by_cases hlimit : ∃ limit, request = .setLimit limit
  · rcases hlimit with ⟨limit, rfl⟩
    exact h
  · rw [usage.session_after request (not_exists.mp hlimit)]
    cases hcommits : usage.commits request with
    | none => exact h
    | some scope => exact .inr (Text.exists_not_blank (usage.commits_worded hcommits))

theorem hasWord_follow (h : usage.session.HasWord) (requests : List (Request σ)) :
    (usage.follow requests).session.HasWord := by
  induction requests generalizing usage with
  | nil => exact h
  | cons request requests ih => exact ih (usage.after request) (usage.hasWord_after h request)

/-! ## What a run launches -/

/-- A run fails before anything is launched, or it launches a query with a known
    question, a described selection, and the words of the scope in force after it
    was put together. -/
theorem run_cases (h : usage.session.HasWord) (mode : Text) (target : EditorTarget)
    (prompt : Option (Prompt σ)) :
    let scope := (usage.after (.prepare mode target prompt)).session.scope
    (∃ failure invoker state, usage.perform (.run mode target prompt)
        = (.error failure, ⟨invoker, usage.host, state⟩))
      ∨ ∃ (question : Mode) (position : Descriptor) (invoker : Invoker) (state : σ),
        question.name = Text.trim mode
        ∧ usage.host.describe (Text.trim (target.path.getD [])) target.selection target.text
          = .ok position
        ∧ Path.isAbsolute position.path = true
        ∧ (∃ c ∈ scope, Text.isBlank c = false)
        ∧ invoker.command = usage.invoker.command
        ∧ usage.perform (.run mode target prompt)
          = ((invoker.execute usage.host ⟨question.name, scope, position, []⟩).1.map .finished,
            ⟨(invoker.execute usage.host ⟨question.name, scope, position, []⟩).2.1,
              (invoker.execute usage.host ⟨question.name, scope, position, []⟩).2.2, state⟩) := by
  intro scope
  have hword := usage.hasWord_after h (.prepare mode target prompt)
  have hends : usage.invoker.Prepares usage.host mode target prompt usage.state
      (usage.invoker.prepare usage.host mode target prompt usage.state) :=
    Invoker.prepare_prepares usage.invoker usage.host
  rcases hprepare : usage.invoker.prepare usage.host mode target prompt usage.state with
    ⟨failure | invocation, preparing, left⟩
  · refine .inl ⟨failure, preparing, left, ?_⟩
    simp only [perform, Invoker.run_failed usage.invoker usage.host hprepare]
    rfl
  · have hprepared : (usage.after (.prepare mode target prompt)).session = preparing.session := by
      simp only [Usage.after, perform, hprepare]
      rfl
    rw [hprepare] at hends
    cases hends with
    | @ready given session _ position hproper hensure hdescribe =>
        rcases hproper.known with ⟨question, hquestion⟩
        have hensured := usage.session.ensureScope_scope prompt usage.state given
          (congrArg Prod.fst hensure)
        rw [show usage.session.ensureScope prompt usage.state = _ from hensure] at hensured
        have hscope : scope = given := (congrArg Session.scope hprepared).trans hensured.1.symm
        refine .inr ⟨question, position, { usage.invoker with session }, left, hquestion, hdescribe,
          usage.invoker.prepare_isAbsolute usage.host _ (congrArg Prod.fst hprepare),
          hword.resolve_left fun hnil => hensured.2 (hscope.symm.trans hnil), rfl, ?_⟩
        simp only [perform, Invoker.run_prepared usage.invoker usage.host hprepare, hscope,
          hquestion]

/-- After any requests to an invoker that began with a word in its scope or without
    one, a run asks the compiler at most, launches the tool for the words of the
    scope that was in force when the query was put together, or fails without a
    launch of the tool. The environment of the host stays what it is. -/
theorem run_puts (session : Session)
    (hscope : session.scope = [] ∨ ∃ c ∈ session.scope, Text.isBlank c = false)
    (command : Text) (source : ToolchainSource) (host : Host) (state : σ)
    (requests : List (Request σ)) (mode : Text) (target : EditorTarget)
    (prompt : Option (Prompt σ)) :
    let fresh : Usage σ := ⟨.fresh session command source, host, state⟩
    let usage := fresh.follow requests
    let after := usage.after (.run mode target prompt)
    let scope := (usage.after (.prepare mode target prompt)).session.scope
    after.host.environment = host.environment
      ∧ ∃ asked launched, after.host.launches = usage.host.launches ++ asked ++ launched
        ∧ (∀ launch ∈ asked, ∃ program, launch = Host.compilerQuestion program)
        ∧ (launched = []
            ∧ (∃ failure, (usage.perform (.run mode target prompt)).1 = .error failure)
          ∨ ∃ launch question position toolchain, launched = [launch]
            ∧ question.name = Text.trim mode
            ∧ usage.host.describe (Text.trim (target.path.getD [])) target.selection target.text
              = .ok position
            ∧ after.invoker.kept = some toolchain
            ∧ launch.Puts
              ((usage.host.findExecutable usage.invoker.command).orElse usage.invoker.command)
              question position scope toolchain host.environment) := by
  intro fresh usage after scope
  have henvironment : usage.host.environment = host.environment :=
    fresh.environment_follow requests
  refine ⟨(usage.environment_after _).trans henvironment, ?_⟩
  rcases usage.run_cases (fresh.hasWord_follow hscope requests) mode target prompt with
    ⟨failure, invoker, left, hperform⟩
    | ⟨question, position, invoker, left, hquestion, hdescribe, hplaced, hwords, hcommand, hperform⟩
  · have hafter : after = ⟨invoker, usage.host, left⟩ := congrArg Prod.snd hperform
    refine ⟨[], [], ?_, fun _ h => absurd h List.not_mem_nil, .inl ⟨rfl, failure, ?_⟩⟩
    · rw [hafter, List.append_nil, List.append_nil]
    · rw [hperform]
  · rcases invoker.execute_puts usage.host question scope position hwords hplaced rfl with
      ⟨asked, launched, hlaunches, hcompiler, hput⟩
    have hafter := congrArg Prod.snd hperform
    refine ⟨asked, launched, ?_, hcompiler, ?_⟩
    · rw [show after = _ from hafter]
      exact hlaunches
    · rcases hput with ⟨hnone, failure, hfailure⟩ | ⟨launch, toolchain, hone, hkept, hputs⟩
      · refine .inl ⟨hnone, failure, ?_⟩
        rw [hperform, hfailure]
        rfl
      · refine .inr ⟨launch, question, position, toolchain, hone, hquestion, hdescribe, ?_, ?_⟩
        · rw [show after = _ from hafter]
          exact hkept
        · rw [← henvironment, ← hcommand]
          exact hputs

/-- A scope with other blanks around and between its words. -/
@[irreducible]
def spacedScope : Text := "\u2003net/http\u00a0\tfmt\n"

/-- The words of a scope with other blanks reach the tool, on a host that has another
    root in its environment. -/
theorem run_puts_spaced :
    let host : Host :=
      { Host.ofFiles ⟨[]⟩ with
        environment := [("HOME", "/home"), ("GOROOT", "/old")], outcomes := [.exited 0 [] []] }
    let fresh : Usage Unit :=
      ⟨.fresh .fresh "oracle" (.fixed ⟨"/go", ["/a", "/b"], []⟩), host, ()⟩
    let target : EditorTarget := ⟨some "/work/a.go", false, some "package a\n", .ok ⟨2, none⟩⟩
    let usage := fresh.follow [.setScope spacedScope]
    let after := usage.after (.run " describe" target none)
    (Session.fresh.scope = [] ∨ ∃ c ∈ Session.fresh.scope, Text.isBlank c = false)
      ∧ ∃ launch question position toolchain, after.host.launches = [launch]
        ∧ launch.command
          = (["oracle", "-pos=/work/a.go:1", "-mode=describe", "net/http", "fmt"] : List Text)
        ∧ launch.Puts "oracle" question position "net/http\u00a0\tfmt" toolchain
          host.environment := by
  intro host fresh target usage after
  have hok : (usage.perform (.run " describe" target none)).1.isOk = true := by decide +kernel
  have hbefore : usage.host.launches = [] := by decide +kernel
  have hcommands : after.host.launches.map (·.command)
      = [(["oracle", "-pos=/work/a.go:1", "-mode=describe", "net/http", "fmt"] : List Text)] := by
    decide +kernel
  have htool : (usage.host.findExecutable usage.invoker.command).orElse usage.invoker.command
      = ("oracle" : Text) := by
    decide +kernel
  have hscope : (usage.after (.prepare " describe" target none)).session.scope
      = ("net/http\u00a0\tfmt" : Text) := by
    decide +kernel
  refine ⟨.inl rfl, ?_⟩
  rcases (run_puts .fresh (.inl rfl) "oracle" (.fixed ⟨"/go", ["/a", "/b"], []⟩) host ()
      [.setScope spacedScope] " describe" target none).2 with
    ⟨asked, launched, hlaunches, _, ⟨_, failure, hfailed⟩
      | ⟨launch, question, position, toolchain, hone, _, _, _, hputs⟩⟩
  · change (usage.perform (.run " describe" target none)).1 = _ at hfailed
    rw [hfailed] at hok
    exact absurd hok Bool.false_ne_true
  · change after.host.launches = usage.host.launches ++ asked ++ launched at hlaunches
    change launch.Puts ((usage.host.findExecutable usage.invoker.command).orElse
      usage.invoker.command) question position
      (usage.after (.prepare " describe" target none)).session.scope toolchain _ at hputs
    rw [htool, hscope] at hputs
    rw [hbefore, hone, List.nil_append] at hlaunches
    rw [hlaunches, List.map_append] at hcommands
    rcases List.append_eq_singleton_iff.mp hcommands with ⟨hasked, hcommand⟩ | ⟨_, hcommand⟩
    · refine ⟨launch, question, position, toolchain, ?_, List.singleton_inj.mp hcommand, hputs⟩
      rw [hlaunches, List.map_eq_nil_iff.mp hasked]
      rfl
    · exact absurd hcommand (List.cons_ne_nil _ _)

end Usage

end QueryDesk
