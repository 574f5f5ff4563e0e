import QueryDesk.Query.Invoker

/-!
# How queries are launched

The toolchain is kept once it is resolved, so the source is asked only by a launch
that finds none kept. A source asks the compiler at most, and a query that is
launched adds one launch more. Each launch takes an outcome and is recorded;
nothing else of the host is touched.

A launch of the tool is refused only because the tool cannot be started. What
keeps a toolchain from being resolved is no refusal.

## Main definitions

* `Host.Launches`: Programs were launched on a host, and nothing else happened.
* `Host.Asks`: What a source of toolchains does to a host.
* `Invoker.Obtains`: What asking for the toolchain comes to.
* `Invoker.Executes`: What launching a query comes to.

## Theorems

* `Asks.launches`: A source launches nothing but questions to the compiler.
* `get_asks`: A source asks the compiler at most.
* `toolchain_obtains`: Asking for the toolchain comes to one of three ends.
* `resultOf_ok`: A result tells what was launched and how that ended.
* `execute_executes`: Launching a query comes to one of three ends.
* `execute_launches`: Launching a query does nothing to the host but to launch
  programs.
* `execute_session`: Launching a query does not touch the session.
* `execute_refused`: A launch is refused only where the tool cannot be started.
-/

namespace QueryDesk

/-! ## Hosts -/

namespace ToolchainReport

theorem decoded_ne_refused (bytes : Bytes) {refusal : Refusal} :
    decoded bytes ≠ .error (.query refusal) := by
  unfold decoded
  split
  · simp only [ne_eq, Except.error.injEq, reduceCtorEq, not_false_eq_true]
  · simp only [ne_eq, reduceCtorEq, not_false_eq_true]

theorem ofOutcome_ne_refused (command : List Text) (program : Text) (debug : List Text)
    (outcome : LaunchOutcome) {refusal : Refusal} :
    ofOutcome command program debug outcome ≠ .error (.query refusal) := by
  cases outcome with
  | failed fault =>
      cases fault with
      | broken detail =>
          simp only [ofOutcome, ne_eq, Except.error.injEq, reduceCtorEq, not_false_eq_true]
      | _ => simp only [ofOutcome, ne_eq, reduceCtorEq, not_false_eq_true]
  | exited code output errors =>
      intro h
      unfold ofOutcome at h
      cases houtput : decoded output with
      | error failure =>
          simp only [houtput] at h
          exact decoded_ne_refused output (houtput.trans (congrArg _ (Except.error.inj h)))
      | ok text =>
          cases herrors : decoded errors with
          | error failure =>
              simp only [houtput, herrors] at h
              exact decoded_ne_refused errors (herrors.trans (congrArg _ (Except.error.inj h)))
          | ok _ =>
              simp only [houtput, herrors] at h
              split at h <;> exact absurd h (by simp only [reduceCtorEq, not_false_eq_true])

end ToolchainReport

namespace Host

variable (host : Host) {refusal : Refusal}

/-- The question the compiler is asked. -/
def compilerQuestion (program : Text) : Launch :=
  ⟨[program, "env", "GOROOT", "GOPATH"], none, none⟩

/-- Programs were launched on the host, and nothing else happened to it. -/
def Launches (after : Host) (launches : List Launch) : Prop :=
  ∃ outcomes, after = { host with outcomes, launches := host.launches ++ launches }

/-- What a source of toolchains does to a host, with the launches it makes. -/
inductive Asks : Host → List Launch → Prop
  | nobody : Asks host []
  | compiler (program : Text) :
      Asks (host.launch (compilerQuestion program)).1 [compilerQuestion program]

theorem Launches.refl : host.Launches host [] := by
  refine ⟨host.outcomes, ?_⟩
  rw [List.append_nil]

variable {host} in
theorem Launches.trans {second third : Host} {before launches : List Launch}
    (h : host.Launches second before) (h' : second.Launches third launches) :
    host.Launches third (before ++ launches) := by
  rcases h with ⟨_, rfl⟩
  rcases h' with ⟨outcomes, rfl⟩
  refine ⟨outcomes, ?_⟩
  rw [← List.append_assoc]

theorem launch_launches (launch : Launch) : host.Launches (host.launch launch).1 [launch] := by
  unfold Host.launch
  cases host.outcomes with
  | nil => exact ⟨[], rfl⟩
  | cons outcome outcomes => exact ⟨outcomes, rfl⟩

variable {host} in
/-- A source launches nothing but questions to the compiler. -/
theorem Asks.launches {after : Host} {asked : List Launch} (h : host.Asks after asked) :
    host.Launches after asked
      ∧ ∀ launch ∈ asked, ∃ program, launch = compilerQuestion program := by
  cases h with
  | nobody => exact ⟨.refl host, fun _ h => absurd h List.not_mem_nil⟩
  | compiler program =>
      exact ⟨host.launch_launches _, List.forall_mem_singleton.mpr ⟨program, rfl⟩⟩

theorem askCompiler_asks (command : Text) :
    ∃ asked, host.Asks (host.askCompiler command).1 asked := by
  unfold askCompiler
  simp only
  split
  · exact ⟨[], .nobody⟩
  · exact ⟨_, .compiler _⟩

theorem resolveToolchain_asks (request : ToolchainRequest) :
    ∃ asked, host.Asks (host.resolveToolchain request).1 asked := by
  unfold resolveToolchain
  simp only
  split
  · exact ⟨[], .nobody⟩
  · have hasked := host.askCompiler_asks request.command
    split
    · next heq =>
        rw [heq] at hasked
        exact hasked
    · next heq =>
        rw [heq] at hasked
        exact hasked

theorem askCompiler_ne_refused (command : Text) :
    (host.askCompiler command).2 ≠ .error (.query refusal) := by
  unfold askCompiler
  simp only
  split
  · simp only [ne_eq, reduceCtorEq, not_false_eq_true]
  · exact ToolchainReport.ofOutcome_ne_refused _ _ _ _

theorem resolveToolchain_ne_refused (request : ToolchainRequest) :
    (host.resolveToolchain request).2 ≠ .error (.query refusal) := by
  unfold resolveToolchain
  simp only
  split
  · simp only [ne_eq, reduceCtorEq, not_false_eq_true]
  · have hasked : (host.askCompiler request.command).2 ≠ .error (.query refusal) :=
      host.askCompiler_ne_refused request.command
    split
    · next heq =>
        rw [heq] at hasked
        exact fun h => hasked (congrArg Except.error (Except.error.inj h))
    · simp only [ne_eq, reduceCtorEq, not_false_eq_true]

end Host

/-- A source asks the compiler at most. -/
theorem ToolchainSource.get_asks (source : ToolchainSource) (host : Host) :
    ∃ asked, host.Asks (source.get host).1 asked := by
  cases source with
  | fixed toolchain => exact ⟨[], .nobody⟩
  | resolved request => exact host.resolveToolchain_asks request

theorem ToolchainSource.get_ne_refused (source : ToolchainSource) (host : Host)
    (refusal : Refusal) : (source.get host).2 ≠ .error (.query refusal) := by
  cases source with
  | fixed toolchain => simp only [get, ne_eq, reduceCtorEq, not_false_eq_true]
  | resolved request => exact host.resolveToolchain_ne_refused request

namespace Invoker

variable (invoker : Invoker) (host : Host) (invocation : Invocation)

/-! ## The toolchain -/

/-- What asking for the toolchain comes to, whatever the source answers. -/
inductive Obtains (answers : Answers) : Invoker × Host × Except Failure Toolchain → Prop
  /-- It is kept. -/
  | kept {toolchain : Toolchain} (hkept : invoker.kept = some toolchain) :
      Obtains answers (invoker, host, .ok toolchain)
  /-- None is kept, and the source has none. -/
  | failed {after : Host} {failure : Failure} (hkept : invoker.kept = none)
      (hget : answers invoker.source host = (after, .error failure)) :
      Obtains answers ({ invoker with asked := invoker.asked + 1 }, after, .error failure)
  /-- None is kept, and the source has one, which is kept from now on. -/
  | resolved {after : Host} {toolchain : Toolchain} (hkept : invoker.kept = none)
      (hget : answers invoker.source host = (after, .ok toolchain)) :
      Obtains answers ({ invoker with
        kept := some toolchain
        pending := toolchain.debug
        asked := invoker.asked + 1 }, after, .ok toolchain)

/-- Asking for the toolchain comes to one of three ends. -/
theorem toolchain_obtains (answers : Answers) :
    invoker.Obtains host answers (invoker.toolchain host answers) := by
  unfold toolchain
  split
  · next hkept => exact .kept hkept
  · next hkept =>
      simp only
      split
      · next hget => exact .failed hkept hget
      · next hget => exact .resolved hkept hget

theorem toolchain_asks {asking : Invoker} {after : Host} {result : Except Failure Toolchain}
    (h : invoker.toolchain host = (asking, after, result)) : ∃ asked, host.Asks after asked := by
  have hends := invoker.toolchain_obtains host ToolchainSource.get
  have hasks := invoker.source.get_asks host
  rw [h] at hends
  cases hends with
  | kept hkept => exact ⟨[], .nobody⟩
  | failed hkept hget | resolved hkept hget =>
      rw [hget] at hasks
      exact hasks

/-- A toolchain that was obtained is kept, and the command is as before. -/
theorem kept_of_toolchain {answers : Answers} {asking : Invoker} {asked : Host}
    {toolchain : Toolchain}
    (h : invoker.toolchain host answers = (asking, asked, .ok toolchain)) :
    asking.kept = some toolchain ∧ asking.command = invoker.command := by
  have hends := invoker.toolchain_obtains host answers
  rw [h] at hends
  cases hends with
  | kept hkept => exact ⟨hkept, rfl⟩
  | resolved hkept hget => exact ⟨rfl, rfl⟩

/-- Asking for the toolchain leaves the session and the source. -/
theorem toolchain_same (answers : Answers) :
    (invoker.toolchain host answers).1.session = invoker.session
      ∧ (invoker.toolchain host answers).1.source = invoker.source := by
  have hends := invoker.toolchain_obtains host answers
  generalize invoker.toolchain host answers = outcome at hends
  cases hends with
  | kept | failed | resolved => exact ⟨rfl, rfl⟩

theorem toolchain_session : (invoker.toolchain host).1.session = invoker.session :=
  (invoker.toolchain_same host _).1

/-! ## Launching -/

variable {invocation} in
/-- A result tells what was launched and how that ended. -/
theorem resultOf_ok {command debug : List Text} {outcome : LaunchOutcome} {result : RunResult}
    (h : resultOf invocation command debug outcome = .ok result) :
    ∃ code output errors, outcome = .exited code output errors
      ∧ result = {
        invocation, command, code
        output := Text.normalizeBreaks (Utf8.decodeLossy output)
        debug := if code = 0 then debug else debug ++ ["[Oracle] exit " ++ Text.ofInt code] } := by
  cases outcome with
  | failed fault =>
      cases fault with
      | _ => exact absurd h (by simp only [resultOf, reduceCtorEq, not_false_eq_true])
  | exited code output errors => exact ⟨code, output, errors, rfl, (Except.ok.inj h).symm⟩

theorem launch_answers (result : RunResult)
    (h : (invoker.launch host invocation).1 = .ok result) : result.invocation = invocation := by
  rcases resultOf_ok h with ⟨code, output, errors, -, rfl⟩
  rfl

/-- What launching a query comes to. -/
inductive Executes : Except Failure RunResult × Invoker × Host → Prop
  /-- The query has no variables of its own, and there is no toolchain. -/
  | unequipped {asking : Invoker} {asked : Host} {failure : Failure}
      (hextra : invocation.extra = [])
      (htoolchain : invoker.toolchain host = (asking, asked, .error failure)) :
      Executes (.error failure, asking, asked)
  /-- The query has no variables of its own, and takes those of the toolchain. -/
  | equipped {asking : Invoker} {asked : Host} {toolchain : Toolchain}
      (hextra : invocation.extra = [])
      (htoolchain : invoker.toolchain host = (asking, asked, .ok toolchain)) :
      Executes (asking.launch asked { invocation with extra := toolchain.environment })
  /-- The query has variables of its own. -/
  | own (hextra : invocation.extra ≠ []) : Executes (invoker.launch host invocation)

/-- Launching a query comes to one of three ends. -/
theorem execute_executes :
    invoker.Executes host invocation (invoker.execute host invocation) := by
  unfold execute
  by_cases hextra : invocation.extra = []
  · rw [if_pos (List.isEmpty_iff.mpr hextra)]
    split
    · next htoolchain => exact .unequipped hextra htoolchain
    · next htoolchain => exact .equipped hextra htoolchain
  · rw [if_neg fun h => hextra (List.isEmpty_iff.mp h)]
    exact .own hextra

/-- Launching a query does not touch the session. -/
theorem execute_session : (invoker.execute host invocation).2.1.session = invoker.session := by
  have hends := invoker.execute_executes host invocation
  generalize invoker.execute host invocation = outcome at hends
  have htoolchain := invoker.toolchain_session host
  cases hends with
  | unequipped hextra hasked | equipped hextra hasked =>
      rw [hasked] at htoolchain
      exact htoolchain
  | own hextra => rfl

/-- Launching a query does nothing to the host but to launch programs. -/
theorem execute_launches :
    ∃ launches, host.Launches (invoker.execute host invocation).2.2 launches := by
  have hends := invoker.execute_executes host invocation
  generalize invoker.execute host invocation = outcome at hends
  cases hends with
  | unequipped hextra htoolchain =>
      rcases invoker.toolchain_asks host htoolchain with ⟨asked, hasks⟩
      exact ⟨asked, hasks.launches.1⟩
  | equipped hextra htoolchain =>
      rcases invoker.toolchain_asks host htoolchain with ⟨asked, hasks⟩
      exact ⟨_, hasks.launches.1.trans (Host.launch_launches _ _)⟩
  | own hextra => exact ⟨_, host.launch_launches _⟩

theorem launch_refused {refusal : Refusal}
    (h : (invoker.launch host invocation).1 = .error (.query refusal)) :
    ∃ program reason, refusal = .notStarted program reason := by
  unfold launch resultOf at h
  simp only at h
  split at h
  · split at h
    all_goals first
      | exact ⟨_, _, (Failure.query.inj (Except.error.inj h)).symm⟩
      | exact absurd h (by simp only [Except.error.injEq, reduceCtorEq, not_false_eq_true])
  · exact absurd h (by simp only [reduceCtorEq, not_false_eq_true])

/-- A launch is refused only where the tool cannot be started. -/
theorem execute_refused {refusal : Refusal}
    (h : (invoker.execute host invocation).1 = .error (.query refusal)) :
    ∃ program reason, refusal = .notStarted program reason := by
  have hends := invoker.execute_executes host invocation
  generalize invoker.execute host invocation = outcome at h hends
  cases hends with
  | unequipped hextra htoolchain =>
      -- A toolchain that cannot be had is no refusal.
      have hobtains := invoker.toolchain_obtains host ToolchainSource.get
      rw [htoolchain] at hobtains
      rw [Except.error.inj h] at hobtains
      cases hobtains with
      | failed hkept hget =>
          exact absurd (congrArg Prod.snd hget) (invoker.source.get_ne_refused host refusal)
  | equipped hextra htoolchain => exact launch_refused _ _ _ h
  | own hextra => exact launch_refused _ _ _ h

end Invoker

end QueryDesk
