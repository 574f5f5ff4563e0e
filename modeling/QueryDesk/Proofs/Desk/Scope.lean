import QueryDesk.Desk.Workbench
import QueryDesk.Proofs.Desk.Loaded
import QueryDesk.Proofs.Query.Prepared

/-!
# How often a scope is asked for

A blank answer to the question for a scope is not taken: there is a warning, and the
question is put again. Two loops do this. The dialog has one of its own, which a query
without a scope relies on, and setting the scope has another around whatever asks. So
that no answer is asked for twice, the two have to agree on what is blank, and then the
outer one never turns around a dialog: what comes out of the dialog is taken at once.

What is shown is told in full, one question for each answer and one warning for each
blank one, so that nothing can be asked or warned about twice without showing.

## Main definitions

* `User.Blank`: An answer without words that does not cancel either.
* `User.given`: The scope that an answer puts into force.
* `User.exchange`: What is shown until an answer is taken.
* `ScopeAsker.question`: What a way to ask shows.
* `Workbench.answered`: The workbench after a scope was asked for.

## Theorems

* `answerScope_blanks`: The dialog asks once for each answer.
* `askScope_answered`: So does setting the scope, whoever asks.
* `run_canceled`, `run_answered`: A query after the dialog.
* `scope_asked_per_answer`: Each answer is asked for once, and the last one counts.
-/

namespace QueryDesk

namespace User

/-- An answer without words that does not cancel either. -/
def Blank (answer : Json) : Prop :=
  ∃ word, answer.word? = some word ∧ Text.trim word = []

/-- The scope that an answer puts into force, none when it cancels. -/
def given (answer : Json) : Option Text :=
  answer.word?.bind Text.worded

/-- What is shown when some blank answers are given to a question and then one that is
    taken. -/
def exchange (question : Display) (blanks : List Json) : List Display :=
  blanks.flatMap (fun _ => [question, blankScope]) ++ [question]

theorem exchange_cons (question : Display) (blank : Json) (blanks : List Json) :
    exchange question (blank :: blanks) = [question, blankScope] ++ exchange question blanks :=
  rfl

/-- An answer that is not blank cancels, or gives its words without the blanks around
    them. -/
theorem given_cases {answer : Json} (h : ¬ Blank answer) :
    answer.word? = none ∧ given answer = none
      ∨ ∃ word, answer.word? = some word ∧ Text.trim word ≠ []
        ∧ given answer = some (Text.trim word) := by
  unfold given
  cases hword : answer.word? with
  | none => exact Or.inl ⟨rfl, rfl⟩
  | some word =>
      have hgiven : Text.trim word ≠ [] := fun hblank => h ⟨word, hword, hblank⟩
      exact Or.inr ⟨word, rfl, hgiven, if_neg hgiven⟩

/-- The dialog asks once for each blank answer, and once for the one that it takes. -/
theorem answerScope_blanks (items : List Text) (blanks : List Json) (answer : Json)
    (later : List Json) (shown : List Display) (hblanks : ∀ blank ∈ blanks, Blank blank)
    (htaken : ¬ Blank answer) :
    answerScope items (blanks ++ answer :: later) shown
      = (answer.word?,
        ⟨later, shown ++ exchange (.choice scopeTitle scopeLabel items) blanks⟩) := by
  induction blanks generalizing shown with
  | nil =>
      rw [List.nil_append, answerScope]
      rcases given_cases htaken with ⟨hword, -⟩ | ⟨word, hword, hgiven, -⟩
      · simp only [hword]
        rfl
      · simp only [hword, List.isEmpty_eq_false_iff.mpr hgiven, Bool.false_eq_true, if_false]
        rfl
  | cons blank blanks ih =>
      rcases hblanks blank List.mem_cons_self with ⟨word, hword, hblank⟩
      rw [List.cons_append, answerScope]
      simp only [hword, hblank, List.isEmpty_nil, if_true]
      rw [ih _ fun other hother => hblanks other (List.mem_cons_of_mem blank hother),
        exchange_cons, List.append_assoc]

end User

namespace ScopeAsker

/-- What a way to ask for a scope shows, by the scope in force and what can be
    recalled. -/
def question : ScopeAsker → Text → List Text → Display
  | .dialog, current, history =>
      .choice User.scopeTitle User.scopeLabel (User.scopeItems current history)
  | .plain, current, history => .prompt current history

theorem prompt_dialog (current : Text) (history : List Text) (user : User) (blanks : List Json)
    (answer : Json) (later : List Json) (hanswers : user.answers = blanks ++ answer :: later)
    (hblanks : ∀ blank ∈ blanks, User.Blank blank) (htaken : ¬ User.Blank answer) :
    ScopeAsker.dialog.prompt current history user
      = (answer.word?, ⟨later,
        user.shown ++ User.exchange (ScopeAsker.dialog.question current history) blanks⟩) := by
  change User.answerScope _ user.answers user.shown = _
  rw [hanswers, User.answerScope_blanks _ blanks answer later _ hblanks htaken]
  rfl

-- The plain question takes the first answer, whatever it is.
theorem prompt_plain (current : Text) (history : List Text) (user : User) (answer : Json)
    (later : List Json) (hanswers : user.answers = answer :: later) :
    ScopeAsker.plain.prompt current history user
      = (answer.word?, ⟨later, user.shown ++ [.prompt current history]⟩) := by
  simp only [prompt, User.ask, User.see, hanswers, List.headD_cons, List.tail_cons]

end ScopeAsker

namespace Workbench

/-- The workbench after a scope was asked for: what the user was shown and has left to
    answer and, if a scope was given, that scope in force and at the front of the
    history. -/
def answered (bench : Workbench) (user : User) : Option Text → Workbench
  | none => { bench with user }
  | some scope =>
      let history := (scope :: bench.session.history).take (max 1 bench.session.limit).toNat
      { bench with
        user, invoker := { bench.invoker with session := ⟨scope, history, bench.session.limit⟩ } }

/-- What setting the scope comes to: the scope that was given, if any, and a status for
    it. -/
def scopeSet (bench : Workbench) (user : User) (scope : Option Text) :
    Outcome Workbench (Option Text) :=
  ⟨bench.answered user scope,
    scope.toList.map fun scope => .status ("Oracle scope: " ++ scope) shortWhile, .ok scope⟩

/-! ## Setting the scope -/

-- An answer that is taken ends the loop at once.
theorem askScope_taken (current : Text) (asks : Nat) (bench : Workbench) (answer : Json)
    (user : User) (htaken : ¬ User.Blank answer)
    (hprompt : bench.asker.prompt current bench.session.recalled bench.user
      = (answer.word?, user)) :
    askScope current (asks + 1) bench = bench.scopeSet user (User.given answer) := by
  rw [askScope, hprompt]
  rcases User.given_cases htaken with ⟨hword, hgiven⟩ | ⟨word, hword, hproper, hgiven⟩
  · simp only [hword, hgiven]
    rfl
  · simp only [hword, hgiven, Session.setScope_given bench.session hproper]
    rfl

theorem askScope_plain (current : Text) (asks : Nat) (bench : Workbench) (blanks : List Json)
    (answer : Json) (later : List Json) (hplain : bench.asker = .plain)
    (hanswers : bench.user.answers = blanks ++ answer :: later)
    (hblanks : ∀ blank ∈ blanks, User.Blank blank) (htaken : ¬ User.Blank answer)
    (hasks : blanks.length < asks) :
    askScope current asks bench
      = bench.scopeSet ⟨later, bench.user.shown
          ++ User.exchange (.prompt current bench.session.recalled) blanks⟩
        (User.given answer) := by
  induction blanks generalizing bench asks with
  | nil =>
      rcases Nat.exists_eq_add_of_lt hasks with ⟨more, rfl⟩
      refine askScope_taken current _ bench answer _ htaken ?_
      rw [hplain]
      exact ScopeAsker.prompt_plain current _ bench.user answer later hanswers
  | cons blank blanks ih =>
      cases asks with
      | zero => exact absurd hasks (Nat.not_lt_zero _)
      | succ asks =>
          rcases hblanks blank List.mem_cons_self with ⟨word, hword, hblank⟩
          have hprompt := ScopeAsker.prompt_plain current bench.session.recalled bench.user blank
            (blanks ++ answer :: later) hanswers
          rw [← hplain] at hprompt
          -- A blank answer leaves the session, so the next question shows the same.
          let warned : Workbench := { bench with
            user := ⟨blanks ++ answer :: later, bench.user.shown
              ++ [.prompt current bench.session.recalled, User.blankScope]⟩ }
          have hstep : askScope current (asks + 1) bench = askScope current asks warned := by
            rw [askScope, hprompt]
            simp only [hword, Session.setScope_blank bench.session hblank, User.see,
              List.append_assoc]
            rfl
          have hrest := ih asks warned hplain rfl
            (fun other hother => hblanks other (List.mem_cons_of_mem blank hother))
            (Nat.lt_of_succ_lt_succ hasks)
          rw [hstep, hrest, User.exchange_cons, ← List.append_assoc]
          cases User.given answer with
          | none => rfl
          | some scope => rfl

/-- Setting the scope asks once for each answer, whoever asks: the dialog does all of it
    in one turn of the loop, the plain question in as many as there are answers. -/
theorem askScope_answered (current : Text) (asks : Nat) (bench : Workbench) (blanks : List Json)
    (answer : Json) (later : List Json)
    (hanswers : bench.user.answers = blanks ++ answer :: later)
    (hblanks : ∀ blank ∈ blanks, User.Blank blank) (htaken : ¬ User.Blank answer)
    (hasks : blanks.length < asks) :
    askScope current asks bench
      = bench.scopeSet ⟨later, bench.user.shown
          ++ User.exchange (bench.asker.question current bench.session.recalled) blanks⟩
        (User.given answer) := by
  cases hasker : bench.asker with
  | plain =>
      exact askScope_plain current asks bench blanks answer later hasker hanswers hblanks htaken
        hasks
  | dialog =>
      rcases Nat.exists_eq_add_of_lt hasks with ⟨more, rfl⟩
      refine askScope_taken current _ bench answer _ htaken ?_
      rw [hasker]
      exact ScopeAsker.prompt_dialog current _ bench.user blanks answer later hanswers hblanks
        htaken

/-! ## A query that needs a scope -/

variable (bench : Workbench) {mode : Text} {target : EditorTarget} {user : User}
variable {word : Text}

/-- A query that needs a scope and is canceled at the dialog takes no number and changes
    nothing but what the user was shown. -/
theorem run_canceled (hproper : Invoker.Proper mode target) (hscope : bench.session.scope = [])
    (hprompt : bench.asker.prompt bench.session.scope bench.session.recalled bench.user
      = (none, user)) :
    bench.run mode (some target)
      = .tell (bench.answered user none) [.status Refusal.noScope.message shortWhile] false := by
  have hconsult : bench.session.consult (some bench.asker.prompt) bench.user = (none, user) :=
    hprompt
  have hensure := bench.session.ensureScope_unanswered (some bench.asker.prompt) bench.user hscope
    (by rw [hconsult])
  rw [hconsult] at hensure
  rw [run, Invoker.prepare_unscoped bench.invoker bench.host hproper hensure]
  rfl

/-- A query that needs a scope and is given one puts it into force, and is taken if the
    selection can be described then. -/
theorem run_answered (hproper : Invoker.Proper mode target) (hscope : bench.session.scope = [])
    (hgiven : Text.trim word ≠ [])
    (hprompt : bench.asker.prompt bench.session.scope bench.session.recalled bench.user
      = (some word, user)) :
    (∀ position, bench.host.describe (Text.trim (target.path.getD [])) target.selection
        target.text = .ok position →
      bench.run mode (some target)
        = (bench.answered user (some (Text.trim word))).start
            ⟨Text.trim mode, Text.trim word, position, []⟩)
      ∧ ∀ failure, bench.host.describe (Text.trim (target.path.getD [])) target.selection
          target.text = .error failure →
        (bench.run mode (some target)).state = bench.answered user (some (Text.trim word))
          ∧ (bench.run mode (some target)).result ≠ .ok true := by
  have hconsult : bench.session.consult (some bench.asker.prompt) bench.user = (some word, user) :=
    hprompt
  have hensure := bench.session.ensureScope_given (some bench.asker.prompt) bench.user hscope
    (by rw [hconsult]) hgiven
  rw [hconsult] at hensure
  have hprepare := Invoker.prepare_scoped bench.invoker bench.host hproper hensure
  refine ⟨fun position hdescribe => ?_, fun failure hdescribe => ?_⟩
  · rw [hdescribe] at hprepare
    rw [run, hprepare]
    rfl
  · rw [hdescribe] at hprepare
    rw [run, hprepare]
    cases failure with
    | query refusal => exact ⟨rfl, by simp only [refused, Outcome.tell, Except.map, ne_eq,
        Except.ok.injEq, Bool.false_eq_true, not_false_eq_true]⟩
    | _ => exact ⟨rfl, by simp only [Outcome.fail, Except.map, ne_eq, reduceCtorEq,
        not_false_eq_true]⟩

/-- Each answer to the question for a scope is asked for once, each blank one is warned
    about once, and the first one that is not blank is the last one asked for. This holds
    when the scope is set, and when a query needs one and the dialog asks for it. If the
    answer has words, the scope in force and the front of the history are these words without
    the blanks around them; if it cancels, nothing is changed and no query is taken. -/
theorem scope_asked_per_answer (blanks : List Json) (answer : Json) (later : List Json)
    (hanswers : bench.user.answers = blanks ++ answer :: later)
    (hblanks : ∀ blank ∈ blanks, User.Blank blank) (htaken : ¬ User.Blank answer) :
    let question := bench.asker.question bench.session.scope bench.session.recalled
    let user : User := ⟨later, bench.user.shown ++ User.exchange question blanks⟩
    let after := bench.answered user (User.given answer)
    bench.setScope
        = ⟨after, (User.given answer).toList.map fun scope =>
            .status ("Oracle scope: " ++ scope) shortWhile, .ok (User.given answer)⟩
      ∧ ∀ mode target, bench.asker = .dialog → Invoker.Proper mode target →
        bench.session.scope = [] →
        (User.given answer = none →
          bench.run mode (some target)
            = .tell after [.status Refusal.noScope.message shortWhile] false)
        ∧ ∀ scope, User.given answer = some scope →
          (∀ position, bench.host.describe (Text.trim (target.path.getD [])) target.selection
              target.text = .ok position →
            bench.run mode (some target) = after.start ⟨Text.trim mode, scope, position, []⟩)
          ∧ ∀ failure, bench.host.describe (Text.trim (target.path.getD [])) target.selection
              target.text = .error failure →
            (bench.run mode (some target)).state = after
              ∧ (bench.run mode (some target)).result ≠ .ok true := by
  intro question user after
  have hasks : blanks.length < bench.user.answers.length + 1 := by
    rw [hanswers, List.length_append]
    omega
  refine ⟨?_, fun mode target hdialog hproper hscope => ?_⟩
  · exact askScope_answered bench.session.scope _ bench blanks answer later hanswers hblanks htaken
      hasks
  · have hprompt := ScopeAsker.prompt_dialog bench.session.scope bench.session.recalled bench.user
      blanks answer later hanswers hblanks htaken
    rw [← hdialog] at hprompt
    rcases User.given_cases htaken with ⟨hword, hgiven⟩ | ⟨word, hword, hproperWord, hgiven⟩
    · rw [hword] at hprompt
      simp only [after, hgiven]
      refine ⟨fun _ => run_canceled bench hproper hscope hprompt, fun scope hscope' => ?_⟩
      exact absurd hscope' (Option.some_ne_none scope).symm
    · rw [hword] at hprompt
      simp only [after, hgiven]
      refine ⟨fun hnone => absurd hnone (Option.some_ne_none _), fun scope hsome => ?_⟩
      rw [← Option.some.inj hsome]
      exact run_answered bench hproper hscope hproperWord hprompt

/-- Two blank answers, one of them an ideographic space, and then a scope: it is set, and a
    query that needs it is taken. -/
theorem scope_asked_three_times :
    let blanks : List Json := [.str " ", .str "\u3000"]
    let answer : Json := .str " main\t"
    let bench := fresh (Host.holding "a.go" []) ⟨blanks ++ [answer], []⟩ .fresh
    let target : EditorTarget := ⟨some "/a.go", false, some [], .ok ⟨1, none⟩⟩
    (bench.user.answers = blanks ++ answer :: [] ∧ (∀ blank ∈ blanks, User.Blank blank)
        ∧ ¬ User.Blank answer)
      ∧ (bench.asker = .dialog ∧ Invoker.Proper "describe" target ∧ bench.session.scope = [])
      ∧ bench.setScope.result = .ok (some ("main" : Text))
      ∧ bench.setScope.state.user.shown.length = 5
      ∧ (bench.run "describe" (some target)).result = .ok true
      ∧ (bench.run "describe" (some target)).state.session.history = ["main"] := by
  intro blanks answer bench target
  have hblanks : ∀ blank ∈ blanks, User.Blank blank := by
    intro blank hblank
    simp only [blanks, List.mem_cons, List.not_mem_nil, or_false] at hblank
    rcases hblank with rfl | rfl
    · exact ⟨" ", rfl, by decide⟩
    · exact ⟨"\u3000", rfl, by decide⟩
  have htaken : ¬ User.Blank answer := by
    rintro ⟨word, hword, hblank⟩
    rw [← Option.some.inj hword] at hblank
    exact absurd hblank (by decide)
  have hproper : Invoker.Proper "describe" target := by decide
  have hasked := scope_asked_per_answer bench blanks answer [] rfl hblanks htaken
  have hgiven : User.given answer = some ("main" : Text) := by decide
  have hpath : Text.trim (target.path.getD []) = "/a.go" := by decide
  have hdescribe := Host.describe_canonical bench.host "/a.go" [] ⟨1, none⟩ [] rfl rfl
  rw [← hpath] at hdescribe
  have hrun := ((hasked.2 "describe" target rfl hproper rfl).2 _ hgiven).1 _ hdescribe
  rw [hgiven] at hasked hrun
  refine ⟨⟨rfl, hblanks, htaken⟩, ⟨rfl, hproper, rfl⟩, ?_, ?_, ?_, ?_⟩
  · rw [hasked.1]
  · rw [hasked.1]
    rfl
  · rw [hrun]
    rfl
  · rw [hrun]
    rfl

end Workbench

end QueryDesk
