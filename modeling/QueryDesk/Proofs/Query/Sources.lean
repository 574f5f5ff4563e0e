import QueryDesk.Proofs.Query.Executed
import QueryDesk.Proofs.Text.Line
import QueryDesk.Proofs.Text.Segment
import QueryDesk.Proofs.Text.Split
import QueryDesk.Proofs.Text.Trim

/-!
# Where a toolchain comes from

A root and a search path are taken from the first source that has one: what is
configured, what the compiler's command answers, and the host's environment. The
compiler is asked once, and only when something is left to ask it.

A root counts as there when it is not blank. So does a search path that is configured or
answered, but the two are looked at in another order: what is configured is cut into
entries first, while an answer counts as soon as its line is not blank. A line of
separators only has no entries, and the environment is not asked in its place.

An answer that cannot be used, because the command failed, ended with a status or wrote
nothing, leaves both to the environment. But what the command wrote has to be text in
every case, also where it is not used, and there is no toolchain where it is not.

## Main definitions

* `Text.firstFilled`: The first of several lists that is not empty.
* `Host.nextOutcome`: How the next launch ends.
* `Host.Consults`: The compiler is asked.
* `Host.Resolves`: What asking for a toolchain comes to.
* `LaunchOutcome.Written`: What a program wrote, if it ended, is text.
* `LaunchOutcome.Unanswered`: A program did not end well, or wrote blanks only.

## Theorems

* `Gopath.splitText_trim`: Blanks around a search path make no difference.
* `ofOutcome_isOk_iff`: When the way a launch ended makes a report.
* `ofOutcome_unanswered`: Without an answer the report is empty.
* `resolveToolchain_resolves`: Asking for a toolchain comes to one of four ends.
* `resolve_answered`: What comes of an answer that is text.
* `resolve_returns`: When there is a toolchain, and what it falls back to.
* `unread_answer_fails`: A failed command that did not write text.
* `resolve_sources`: The toolchain of an answer, and what was launched for it.
* `separators_hide_path`: A line of separators in an answer.
-/

namespace QueryDesk

namespace Text

/-- The first of several lists that is not empty, and nothing where all are. -/
def firstFilled {α : Type} (candidates : List (List α)) : List α :=
  (candidates.find? (!·.isEmpty)).getD []

variable {α : Type} (candidates : List (List α))

theorem firstFilled_cons_nil : firstFilled ([] :: candidates) = firstFilled candidates :=
  rfl

theorem firstFilled_cons {first : List α} (h : first ≠ []) :
    firstFilled (first :: candidates) = first := by
  rw [firstFilled, List.find?_cons_of_pos, Option.getD_some]
  rw [Bool.not_eq_true', List.isEmpty_eq_false_iff]
  exact h

theorem firstFilled_singleton (only : List α) : firstFilled [only] = only := by
  by_cases h : only = []
  · rw [h]
    rfl
  · exact firstFilled_cons [] h

theorem firstFilled_pair (t other : Text) : firstFilled [t, other] = t.orElse other := by
  by_cases h : t = []
  · rw [h, firstFilled_cons_nil, firstFilled_singleton]
    rfl
  · rw [firstFilled_cons _ h, orElse, if_neg (mt List.isEmpty_iff.mp h)]

theorem orElse_of_ne_nil {t : Text} (h : t ≠ []) (other : Text) : t.orElse other = t :=
  if_neg (mt List.isEmpty_iff.mp h)

end Text

namespace Gopath

/-- Blanks around a search path make no difference to its entries. -/
theorem splitText_trim (path : Text) : splitText (Text.trim path) = splitText path := by
  rcases Text.trim_between path with ⟨front, back, hfront, hback, hpath⟩
  have hsep : ∀ {blanks : Text}, (∀ c ∈ blanks, Text.isBlank c = true) → ':' ∉ blanks :=
    fun h hmem => absurd (h ':' hmem) (by decide)
  rcases List.exists_cons_of_ne_nil (l := Text.splitOn ':' (Text.trim path))
    (by rw [Text.splitOn_eq]; exact List.splitOn_ne_nil _ _) with ⟨first, parts, hparts⟩
  have hwith := Text.splitOn_front (hsep hfront) hparts
  rcases Text.splitOn_back (hsep hback) (front ++ Text.trim path) with
    ⟨init, hinit, hwhole⟩
  have htrimmed : (Text.splitOn ':' path).map Text.trim
      = (Text.splitOn ':' (Text.trim path)).map Text.trim := by
    conv_lhs => rw [← hpath, hwhole]
    rw [List.map_append, List.map_singleton, Text.trim_back hback, ← List.map_singleton,
      ← List.map_append, ← hinit, hwith, hparts, List.map_cons, Text.trim_front hfront,
      List.map_cons]
  rw [splitText, splitText, clean, clean, htrimmed]

end Gopath

/-! ## Answers -/

namespace LaunchOutcome

/-- What a program wrote, if it ended at all, is text. -/
def Written (outcome : LaunchOutcome) : Prop :=
  ∀ code output errors, outcome = .exited code output errors →
    (∃ t, Utf8.encode t = output) ∧ ∃ t, Utf8.encode t = errors

/-- A program did not end well, or wrote nothing but blanks. -/
def Unanswered (outcome : LaunchOutcome) : Prop :=
  ∀ output errors, outcome = .exited 0 output errors →
    Text.trim (Utf8.decodeLossy output) = []

end LaunchOutcome

namespace ToolchainReport

/-- What is decoded, with breaks of one kind only, is the text that was written. -/
theorem decoded_encode (t : Text) : decoded (Utf8.encode t) = .ok (Text.normalizeBreaks t) := by
  rw [decoded, Utf8.fault?_encode, Utf8.decodeLossy_encode]

theorem decoded_isOk_iff (bytes : Bytes) :
    (∃ t, decoded bytes = .ok t) ↔ ∃ t, Utf8.encode t = bytes := by
  rw [← Utf8.fault?_eq_none_iff]
  unfold decoded
  cases Utf8.fault? bytes with
  | none => exact iff_of_true ⟨_, rfl⟩ rfl
  | some fault =>
      exact iff_of_false (by simp only [reduceCtorEq, exists_false, not_false_eq_true])
        (Option.some_ne_none fault)

/-- The root in an answer is its first line. -/
theorem ofAnswer_root (answer : Text) (debug : List Text) :
    (ofAnswer answer debug).root = Text.trim ((Text.lines answer).getD 0 []) := by
  unfold ofAnswer
  rcases Text.lines answer with _ | ⟨root, _ | ⟨path, more⟩⟩ <;> rfl

/-- The search path in an answer is its second line. -/
theorem ofAnswer_searchPath (answer : Text) (debug : List Text) :
    (ofAnswer answer debug).searchPath = Text.trim ((Text.lines answer).getD 1 []) := by
  unfold ofAnswer
  rcases Text.lines answer with _ | ⟨root, _ | ⟨path, more⟩⟩ <;> rfl

variable {command : List Text} {program : Text} {debug : List Text} {outcome : LaunchOutcome}

/-- What is made of a program that ended, when what it wrote is text. -/
theorem ofOutcome_exited (command : List Text) (program : Text) (debug : List Text) (code : Int)
    (answer complaint : Text) :
    ∃ said, ofOutcome command program debug
        (.exited code (Utf8.encode answer) (Utf8.encode complaint))
      = .ok (if code = 0 then ofAnswer (Text.normalizeBreaks answer) debug else silent said) := by
  simp only [ofOutcome, decoded_encode]
  by_cases hcode : code = 0
  · exact ⟨[], by rw [if_pos hcode, if_pos hcode]⟩
  · exact ⟨_, by rw [if_neg hcode, if_neg hcode]⟩

/-- A report of a program that ended was made of what it wrote as text. -/
theorem written_of_ofOutcome {report : ToolchainReport}
    (h : ofOutcome command program debug outcome = .ok report) : outcome.Written := by
  rintro code output errors rfl
  rw [← decoded_isOk_iff, ← decoded_isOk_iff]
  simp only [ofOutcome] at h
  split at h
  · exact absurd h (by simp only [reduceCtorEq, not_false_eq_true])
  · exact absurd h (by simp only [reduceCtorEq, not_false_eq_true])
  · next hout herr => exact ⟨⟨_, hout⟩, _, herr⟩

/-- Unless something went wrong in the desk, the way a launch ended makes a report just
    when what the program wrote is text. -/
theorem ofOutcome_isOk_iff (hfault : ∀ detail, outcome ≠ .failed (.broken detail)) :
    (∃ report, ofOutcome command program debug outcome = .ok report) ↔ outcome.Written := by
  refine ⟨fun ⟨report, h⟩ => written_of_ofOutcome h, fun hwritten => ?_⟩
  cases outcome with
  | failed fault =>
      cases fault with
      | broken detail => exact absurd rfl (hfault detail)
      | _ => exact ⟨_, rfl⟩
  | exited code output errors =>
      rcases hwritten code output errors rfl with ⟨⟨answer, rfl⟩, complaint, rfl⟩
      rcases ofOutcome_exited command program debug code answer complaint with ⟨said, h⟩
      exact ⟨_, h⟩

/-- Without an answer the report is empty. -/
theorem ofOutcome_unanswered {report : ToolchainReport} (hanswer : outcome.Unanswered)
    (h : ofOutcome command program debug outcome = .ok report) :
    report.root = [] ∧ report.searchPath = [] := by
  have hwritten := written_of_ofOutcome h
  cases outcome with
  | failed fault =>
      cases fault with
      | broken detail => exact absurd h (by simp only [ofOutcome, reduceCtorEq,
          not_false_eq_true])
      | _ => exact Except.ok.inj h ▸ ⟨rfl, rfl⟩
  | exited code output errors =>
      rcases hwritten code output errors rfl with ⟨⟨answer, rfl⟩, complaint, rfl⟩
      rcases ofOutcome_exited command program debug code answer complaint with ⟨said, hreport⟩
      rw [← Except.ok.inj (hreport.symm.trans h)]
      by_cases hcode : code = 0
      · subst hcode
        -- The lines of a blank answer are blank.
        have hblank := hanswer _ _ rfl
        rw [Utf8.decodeLossy_encode, Text.trim_eq_nil_iff] at hblank
        have hline : ∀ n, Text.trim ((Text.lines answer).getD n []) = [] := fun n => by
          rw [Text.trim_eq_nil_iff]
          intro c hc
          rw [List.getD_eq_getElem?_getD] at hc
          cases hget : (Text.lines answer)[n]? with
          | none =>
              rw [hget] at hc
              exact absurd hc List.not_mem_nil
          | some line =>
              rw [hget] at hc
              exact hblank c (Text.mem_of_mem_lines (List.mem_of_getElem? hget) hc)
        rw [if_pos rfl, ofAnswer_root, ofAnswer_searchPath, Text.lines_normalizeBreaks]
        exact ⟨hline 0, hline 1⟩
      · rw [if_neg hcode]
        exact ⟨rfl, rfl⟩

end ToolchainReport

/-! ## Hosts -/

namespace Host

variable (host : Host) (request : ToolchainRequest)

/-- How the next launch ends. -/
def nextOutcome : LaunchOutcome :=
  host.outcomes.headD (.failed (.notFound []))

theorem launch_outcome (launch : Launch) : (host.launch launch).2 = host.nextOutcome := by
  rw [Host.launch, nextOutcome]
  cases host.outcomes <;> rfl

theorem launch_variableText (launch : Launch) (name : Text) :
    (host.launch launch).1.variableText name = host.variableText name := by
  rcases host.launch_launches launch with ⟨outcomes, h⟩
  rw [h]
  rfl

/-- The program that is asked for what is not configured. -/
def compiler (request : ToolchainRequest) : Text :=
  host.findExecutable (request.command.orElse "go")

/-- The compiler is asked: something is not configured, and there is a command. -/
def Consults : Prop :=
  (Text.trim request.root = [] ∨ request.searchPath = []) ∧ host.compiler request ≠ []

/-- The root and the search path of a toolchain are the first there are of what is
    configured, what is reported, and what the environment has. -/
def Chooses (report : ToolchainReport) (toolchain : Toolchain) : Prop :=
  toolchain.root
      = Text.firstFilled
        [Text.trim request.root, report.root, Text.trim (host.variableText "GOROOT")]
    ∧ toolchain.searchPath
      = Text.firstFilled
        [request.searchPath, Gopath.splitText (report.searchPath.orElse
          (host.variableText "GOPATH"))]

/-- What asking for a toolchain comes to. -/
inductive Resolves : Host → Except Failure Toolchain → Prop
  /-- Nothing is left to ask for. -/
  | configured {toolchain : Toolchain} (hroot : Text.trim request.root ≠ [])
      (hpath : request.searchPath ≠ [])
      (hchosen : ∀ report, host.Chooses request report toolchain) :
      Resolves host (.ok toolchain)
  /-- There is nobody to ask. -/
  | unasked {toolchain : Toolchain} (hprogram : host.compiler request = [])
      (hchosen : host.Chooses request (.silent []) toolchain) : Resolves host (.ok toolchain)
  /-- What the compiler wrote cannot be read. -/
  | failed {command debug : List Text} {failure : Failure} (hconsults : host.Consults request)
      (hreport : ToolchainReport.ofOutcome command (host.compiler request) debug host.nextOutcome
        = .error failure) :
      Resolves (host.launch (compilerQuestion (host.compiler request))).1 (.error failure)
  /-- The compiler was asked. -/
  | asked {command debug : List Text} {report : ToolchainReport} {toolchain : Toolchain}
      (hconsults : host.Consults request)
      (hreport : ToolchainReport.ofOutcome command (host.compiler request) debug host.nextOutcome
        = .ok report)
      (hchosen : host.Chooses request report toolchain) :
      Resolves (host.launch (compilerQuestion (host.compiler request))).1 (.ok toolchain)

variable {host request} in
/-- What an empty report leaves to the environment. -/
theorem Chooses.unreported {report : ToolchainReport} {toolchain : Toolchain}
    (h : host.Chooses request report toolchain) (hroot : report.root = [])
    (hpath : report.searchPath = []) :
    toolchain.root
        = Text.firstFilled [Text.trim request.root, Text.trim (host.variableText "GOROOT")]
      ∧ toolchain.searchPath
        = Text.firstFilled [request.searchPath, Gopath.splitText (host.variableText "GOPATH")] := by
  rcases h with ⟨hfirst, hsecond⟩
  rw [hroot] at hfirst
  rw [hpath] at hsecond
  refine ⟨hfirst.trans ?_, hsecond⟩
  by_cases hset : Text.trim request.root = []
  · rw [hset]
    rfl
  · rw [Text.firstFilled_cons _ hset, Text.firstFilled_cons _ hset]

theorem toolchainOf_chooses (report : ToolchainReport) :
    host.Chooses request report
      (host.toolchainOf (Text.trim request.root) request.searchPath report) := by
  refine ⟨?_, ?_⟩
  · rw [toolchainOf]
    by_cases hroot : Text.trim request.root = []
    · rw [hroot, Text.firstFilled_cons_nil, Text.firstFilled_pair]
      rfl
    · rw [Text.firstFilled_cons _ hroot]
      exact Text.orElse_of_ne_nil hroot _
  · rw [toolchainOf]
    by_cases hpath : request.searchPath = []
    · rw [hpath, Text.firstFilled_cons_nil, Text.firstFilled_singleton]
      rfl
    · rw [Text.firstFilled_cons _ hpath]
      exact if_neg (mt List.isEmpty_iff.mp hpath)

variable {host request}

theorem askCompiler_silent (h : host.compiler request = []) :
    host.askCompiler request.command = (host, .ok (.silent [])) :=
  if_pos (List.isEmpty_iff.mpr h)

theorem askCompiler_launch (h : host.compiler request ≠ []) :
    ∃ command debug, host.askCompiler request.command
      = ((host.launch (compilerQuestion (host.compiler request))).1,
        ToolchainReport.ofOutcome command (host.compiler request) debug host.nextOutcome) := by
  rw [← host.launch_outcome (compilerQuestion (host.compiler request))]
  exact ⟨_, _, if_neg (mt List.isEmpty_iff.mp h)⟩

variable (host request)

/-- Asking for a toolchain comes to one of four ends. -/
theorem resolveToolchain_resolves :
    host.Resolves request (host.resolveToolchain request).1 (host.resolveToolchain request).2 := by
  unfold resolveToolchain
  dsimp only
  by_cases hset : Text.trim request.root ≠ [] ∧ request.searchPath ≠ []
  · rw [if_pos (by simp only [Bool.and_eq_true, Bool.not_eq_true', List.isEmpty_eq_false_iff,
      hset, ne_eq, not_false_eq_true, and_self])]
    refine .configured hset.1 hset.2 fun report => ⟨?_, ?_⟩
    · exact (Text.firstFilled_cons _ hset.1).symm
    · exact (Text.firstFilled_cons _ hset.2).symm
  have hopen : Text.trim request.root = [] ∨ request.searchPath = [] := by
    rwa [not_and_or, not_not, not_not] at hset
  rw [if_neg (by simpa only [Bool.and_eq_true, Bool.not_eq_true', List.isEmpty_eq_false_iff]
    using hset)]
  by_cases hprogram : host.compiler request = []
  · rw [host.askCompiler_silent hprogram]
    exact .unasked hprogram (host.toolchainOf_chooses request _)
  rcases host.askCompiler_launch hprogram with ⟨command, debug, hask⟩
  rw [hask]
  have hconsults : host.Consults request := ⟨hopen, hprogram⟩
  cases hreport : ToolchainReport.ofOutcome command (host.compiler request) debug
      host.nextOutcome with
  | error failure => exact .failed hconsults hreport
  | ok report =>
      have hchosen := (host.launch (compilerQuestion (host.compiler request))).1.toolchainOf_chooses
        request report
      simp only [Chooses, launch_variableText] at hchosen
      exact .asked hconsults hreport hchosen

variable {host request}

/-- A program that is named is found, or stands for itself. -/
theorem findExecutable_ne_nil (host : Host) {name : Text} (h : Text.trim name ≠ []) :
    host.findExecutable name ≠ [] := by
  unfold findExecutable
  dsimp only
  split
  · exact h
  · cases hfound : (host.searchPath.map fun directory =>
        Path.join directory (Text.trim name)).find? host.canExecute with
    | none => exact h
    | some candidate =>
        rcases List.mem_map.mp (List.mem_of_find?_eq_some hfound) with ⟨directory, -, rfl⟩
        rw [Option.getD_some, Path.join]
        split
        · exact h
        · split
          · exact List.append_ne_nil_of_right_ne_nil _ h
          · exact List.append_ne_nil_of_right_ne_nil _ (List.cons_ne_nil _ _)

theorem compiler_of_command (host : Host) {request : ToolchainRequest}
    (h : Text.trim request.command ≠ []) :
    host.compiler request = host.findExecutable request.command := by
  have hnonempty : request.command ≠ [] := fun hnil => h (by rw [hnil]; rfl)
  rw [compiler, Text.orElse_of_ne_nil hnonempty]

theorem compiler_ne_nil (host : Host) {request : ToolchainRequest}
    (h : Text.trim request.command ≠ []) : host.compiler request ≠ [] := by
  rw [host.compiler_of_command h]
  exact host.findExecutable_ne_nil h

/-! ## Failed and missing answers -/

/-- Unless something goes wrong in the desk, there is a toolchain just when the compiler is
    not asked, or all it writes is text. When it is not asked, or gives no answer, the root
    and the search path are what is configured, and what is not configured is taken from the
    environment. -/
theorem resolve_returns (host : Host) (command root : Text) (given : Json) (after : Host)
    (result : Except Failure Toolchain)
    (hfault : ∀ detail, host.nextOutcome ≠ .failed (.broken detail))
    (h : host.resolveToolchain ⟨command, root, Gopath.split given⟩ = (after, result)) :
    ((∃ toolchain, result = .ok toolchain)
        ↔ (host.Consults ⟨command, root, Gopath.split given⟩ → host.nextOutcome.Written))
      ∧ ∀ toolchain, result = .ok toolchain →
        (host.Consults ⟨command, root, Gopath.split given⟩ → host.nextOutcome.Unanswered) →
        toolchain.root
            = Text.firstFilled [Text.trim root, Text.trim (host.variableText "GOROOT")]
          ∧ toolchain.searchPath
            = Text.firstFilled
              [Gopath.split given, Gopath.splitText (host.variableText "GOPATH")] := by
  have hresolves := host.resolveToolchain_resolves ⟨command, root, Gopath.split given⟩
  simp only [h] at hresolves
  cases hresolves with
  | configured hset hentries hchosen =>
      refine ⟨iff_of_true ⟨_, rfl⟩ fun hconsults => ?_, fun toolchain heq _ => ?_⟩
      · exact (hconsults.1.elim hset hentries).elim
      · rw [← Except.ok.inj heq]
        exact (hchosen (.silent [])).unreported rfl rfl
  | unasked hnobody hchosen =>
      refine ⟨iff_of_true ⟨_, rfl⟩ fun hconsults => absurd hnobody hconsults.2,
        fun toolchain heq _ => ?_⟩
      rw [← Except.ok.inj heq]
      exact hchosen.unreported rfl rfl
  | failed hconsults hreport =>
      refine ⟨iff_of_false (by simp only [reduceCtorEq, exists_false, not_false_eq_true])
        fun hwritten => ?_, fun _ heq => absurd heq (by simp only [reduceCtorEq,
          not_false_eq_true])⟩
      rcases (ToolchainReport.ofOutcome_isOk_iff hfault).mpr (hwritten hconsults) with
        ⟨report, hok⟩
      exact absurd (hreport.symm.trans hok) (by simp only [reduceCtorEq, not_false_eq_true])
  | asked hconsults hreport hchosen =>
      refine ⟨iff_of_true ⟨_, rfl⟩ fun _ => ToolchainReport.written_of_ofOutcome hreport,
        fun toolchain heq hanswer => ?_⟩
      rcases ToolchainReport.ofOutcome_unanswered (hanswer hconsults) hreport with
        ⟨hnoroot, hnopath⟩
      rw [← Except.ok.inj heq]
      exact hchosen.unreported hnoroot hnopath

/-- A host on which a root and a search path are set, and the next launch ends in a given
    way. -/
def endingWith (outcome : LaunchOutcome) : Host :=
  { Host.ofFiles ⟨[]⟩ with
    environment := [("GOROOT", "/g"), ("GOPATH", "/a:/b")], outcomes := [outcome] }

/-- The command fails with a complaint, the root is configured, and the search path is that
    of the environment. -/
theorem resolve_returns_complaint :
    ∃ toolchain, ((endingWith (.exited 2 [] (Utf8.encode "no go"))).resolveToolchain
        ⟨"go", " /r ", Gopath.split .null⟩).2 = .ok toolchain
      ∧ toolchain.root = "/r".toList ∧ toolchain.searchPath = ["/a".toList, "/b".toList] := by
  have hreturns := resolve_returns (endingWith (.exited 2 [] (Utf8.encode "no go"))) "go" " /r "
    .null _ _ (fun detail => by simp only [nextOutcome, endingWith, List.headD_cons, ne_eq,
      reduceCtorEq, not_false_eq_true]) rfl
  have hwritten : (endingWith (.exited 2 [] (Utf8.encode "no go"))).nextOutcome.Written := by
    intro code output errors heq
    cases heq
    exact ⟨⟨[], rfl⟩, _, rfl⟩
  rcases hreturns.1.mpr fun _ => hwritten with ⟨toolchain, htoolchain⟩
  have hanswer : (endingWith (.exited 2 [] (Utf8.encode "no go"))).nextOutcome.Unanswered :=
    fun _ _ heq => absurd (LaunchOutcome.exited.inj heq).1 (by decide)
  rcases hreturns.2 toolchain htoolchain fun _ => hanswer with ⟨hroot, hpath⟩
  exact ⟨toolchain, htoolchain, hroot.trans (by decide), hpath.trans (by decide)⟩

/-- There need not be a toolchain, although the environment has a root and a search path:
    the command fails, and the byte it writes is no text. -/
theorem unread_answer_fails :
    ((endingWith (.exited 2 [0xff] [])).resolveToolchain ⟨"go", [], Gopath.split .null⟩).2
      = .error (.notDecodable [0xff] ⟨0, [0xff], 0⟩) := by
  have hread : ∀ command program debug,
      ToolchainReport.ofOutcome command program debug (.exited 2 [0xff] [])
        = .error (.notDecodable [0xff] ⟨0, [0xff], 0⟩) := by
    intro command program debug
    have hbyte : Utf8.fault? [0xff] = some ⟨0, [0xff], 0⟩ := by decide +kernel
    simp only [ToolchainReport.ofOutcome, ToolchainReport.decoded, hbyte]
  have hresolves := (endingWith (.exited 2 [0xff] [])).resolveToolchain_resolves
    ⟨"go", [], Gopath.split .null⟩
  generalize resolveToolchain _ _ = ending at hresolves ⊢
  rcases ending with ⟨after, result⟩
  change result = _
  cases hresolves with
  | configured hset => exact absurd rfl hset
  | unasked hnobody => exact absurd hnobody (compiler_ne_nil _ (by decide))
  | failed hconsults hreport =>
      rw [Except.error.inj (hreport.symm.trans (hread _ _ _))]
  | asked hconsults hreport =>
      exact absurd (hreport.symm.trans (hread _ _ _)) (by simp only [reduceCtorEq,
        not_false_eq_true])

/-! ## Answers and their lines -/

/-- What comes of a command that is not blank, when its answer is text. -/
theorem resolve_answered (host : Host) (request : ToolchainRequest) (answer complaint : Text)
    (hcommand : Text.trim request.command ≠ [])
    (houtcome : host.nextOutcome = .exited 0 (Utf8.encode answer) (Utf8.encode complaint)) :
    ∃ after report toolchain, host.resolveToolchain request = (after, .ok toolchain)
      ∧ report.root = Text.trim ((Text.lines answer).getD 0 [])
      ∧ report.searchPath = Text.trim ((Text.lines answer).getD 1 [])
      ∧ host.Chooses request report toolchain
      ∧ (Text.trim request.root ≠ [] ∧ request.searchPath ≠ [] → after = host)
      ∧ (Text.trim request.root = [] ∨ request.searchPath = [] →
        host.Launches after [compilerQuestion (host.findExecutable request.command)]) := by
  rw [← host.compiler_of_command hcommand]
  have hresolves := host.resolveToolchain_resolves request
  generalize host.resolveToolchain request = ending at hresolves ⊢
  rcases ending with ⟨after, result⟩
  cases hresolves with
  | configured hset hentries hchosen =>
      exact ⟨_, ⟨Text.trim ((Text.lines answer).getD 0 []),
        Text.trim ((Text.lines answer).getD 1 []), []⟩, _, rfl, rfl, rfl, hchosen _,
        fun _ => rfl, fun hopen => (hopen.elim hset hentries).elim⟩
  | unasked hnobody => exact absurd hnobody (compiler_ne_nil _ hcommand)
  | @failed words debug failure hconsults hreport =>
      rcases ToolchainReport.ofOutcome_exited words (host.compiler request) debug 0 answer
        complaint with ⟨said, hok⟩
      rw [houtcome, hok] at hreport
      exact absurd hreport (by simp only [reduceCtorEq, not_false_eq_true])
  | @asked words debug report toolchain hconsults hreport hchosen =>
      rcases ToolchainReport.ofOutcome_exited words (host.compiler request) debug 0 answer
        complaint with ⟨said, hok⟩
      rw [houtcome, hok, if_pos rfl] at hreport
      have hanswered := Except.ok.inj hreport
      refine ⟨_, report, _, rfl, ?_, ?_, hchosen, fun hset => ?_,
        fun _ => host.launch_launches _⟩
      · rw [← hanswered, ToolchainReport.ofAnswer_root, Text.lines_normalizeBreaks]
      · rw [← hanswered, ToolchainReport.ofAnswer_searchPath, Text.lines_normalizeBreaks]
      · exact (hconsults.1.elim hset.1 hset.2).elim

/-- For a command that is not blank and an answer that is text, the root is the first that
    is not blank of the configured one, the first line and the environment's. The search
    path is what is configured if that has entries, or else the entries of the second line
    if that is not blank, or else the environment's. Each is decided without the other.
    The compiler is asked once, unless both are configured. -/
theorem resolve_sources (host : Host) (command root : Text) (given : Json)
    (answer complaint : Text) (hcommand : Text.trim command ≠ [])
    (houtcome : host.nextOutcome = .exited 0 (Utf8.encode answer) (Utf8.encode complaint)) :
    ∃ after toolchain,
      host.resolveToolchain ⟨command, root, Gopath.split given⟩ = (after, .ok toolchain)
        ∧ toolchain.root = Text.firstFilled [Text.trim root,
          Text.trim ((Text.lines answer).getD 0 []), Text.trim (host.variableText "GOROOT")]
        ∧ toolchain.searchPath = Text.firstFilled [Gopath.split given,
          if Text.trim ((Text.lines answer).getD 1 []) = []
            then Gopath.splitText (host.variableText "GOPATH")
            else Gopath.splitText ((Text.lines answer).getD 1 [])]
        ∧ (Text.trim root ≠ [] ∧ Gopath.split given ≠ [] → after = host)
        ∧ (Text.trim root = [] ∨ Gopath.split given = [] →
          host.Launches after [compilerQuestion (host.findExecutable command)]) := by
  rcases host.resolve_answered ⟨command, root, Gopath.split given⟩ answer complaint hcommand
    houtcome with ⟨after, report, toolchain, hresolve, hfirst, hsecond, ⟨hroot, hpath⟩, hafter⟩
  rw [hfirst] at hroot
  rw [hsecond] at hpath
  refine ⟨after, toolchain, hresolve, hroot, hpath.trans ?_, hafter⟩
  -- A line that is not blank counts, whatever its entries.
  by_cases hblank : Text.trim ((Text.lines answer).getD 1 []) = []
  · rw [if_pos hblank, hblank]
    rfl
  · rw [if_neg hblank, Text.orElse_of_ne_nil hblank, Gopath.splitText_trim]

/-- The root of the answer and, its second line being blank, the search path of the
    environment. -/
theorem resolve_sources_blank :
    ∃ after toolchain, (endingWith (.exited 0 (Utf8.encode "/go \r\n  \n") [])).resolveToolchain
        ⟨"go", " ", Gopath.split (.str ":")⟩ = (after, .ok toolchain)
      ∧ toolchain.root = "/go".toList ∧ toolchain.searchPath = ["/a".toList, "/b".toList]
      ∧ (endingWith (.exited 0 (Utf8.encode "/go \r\n  \n") [])).Launches after
        [compilerQuestion
          ((endingWith (.exited 0 (Utf8.encode "/go \r\n  \n") [])).findExecutable "go")] := by
  rcases resolve_sources (endingWith (.exited 0 (Utf8.encode "/go \r\n  \n") [])) "go" " "
    (.str ":") "/go \r\n  \n" [] (by decide) rfl with
    ⟨after, toolchain, hresolve, hroot, hpath, -, hasked⟩
  exact ⟨after, toolchain, hresolve, hroot.trans (by decide), hpath.trans (by decide),
    hasked (Or.inl (by decide))⟩

/-- The search path need not be the first of the three that has entries: nothing is
    configured and the second line of the answer holds separators only, but the search path
    of the environment is not taken. -/
theorem separators_hide_path :
    ∃ after toolchain, (endingWith (.exited 0 (Utf8.encode "/go\n:\n") [])).resolveToolchain
        ⟨"go", [], Gopath.split .null⟩ = (after, .ok toolchain)
      ∧ toolchain.searchPath = []
      ∧ Text.firstFilled [Gopath.split .null, Gopath.splitText ":", Gopath.splitText
        ((endingWith (.exited 0 (Utf8.encode "/go\n:\n") [])).variableText "GOPATH")]
        = ["/a".toList, "/b".toList] := by
  rcases resolve_answered (endingWith (.exited 0 (Utf8.encode "/go\n:\n") []))
    ⟨"go", [], Gopath.split .null⟩ "/go\n:\n" [] (by decide) rfl with
    ⟨after, report, toolchain, hresolve, -, hsecond, ⟨-, hpath⟩, -⟩
  rw [hsecond] at hpath
  exact ⟨after, toolchain, hresolve, hpath.trans (by decide), by decide⟩

end Host

end QueryDesk
