import Mathlib.Data.List.Basic
import QueryDesk.Proofs.Text.Ending

/-!
# Texts as lines with the returns before their feeds

A text is cut at its line feeds, and from the front of each feed the longest run of
carriage returns is taken off. What is left of the line does not end in a return, so
there is one such cut only, and the runs are told by it.

Reading a text takes one return from every run, and writing it with a pair for each feed
adds one to every run. A source file is written from what was read of it as if that had
not been read yet, which takes another one. So a text without returns before its feeds is
kept, and so is one with a single return before each feed. In any other text a run of one
or none becomes one return, and a longer run loses one.

## Main definitions

* `Text.FedLine`: A line that ends in a feed, and the returns directly before it.
* `Text.Fed`: Lines that end in feeds, and what comes after the last one.
* `Text.Fed.renew`: The text with other numbers of returns.
* `Text.settled`: How many returns are left of a run when the text shows pairs.
* `Text.rewritten`: What is written, with the ending a text shows, of what was read of it.

## Theorems

* `exists_fed`, `fed_injective`: Every text is cut in one way.
* `unpair_fed`: Reading takes one return from every run.
* `withEnding_fed`: Writing pairs adds one to every run.
* `hasPair_fed`: A text shows pairs when a run is not empty.
* `rewritten_fed`: What is written of a text that was read.
* `rewritten_eq_iff`: The texts that are kept.
-/

namespace QueryDesk

namespace Text

/-- A line that ends in a feed: what it holds, and how many carriage returns stand
    directly before the feed. -/
structure FedLine where
  body : Text
  returns : Nat
  no_feed : '\n' ∉ body
  no_return : body.getLast? ≠ some '\r'

/-- The line as it stands in a text. -/
def FedLine.text (line : FedLine) : Text :=
  line.body ++ (List.replicate line.returns '\r' ++ ['\n'])

/-- Lines that end in feeds, and what comes after the last one. -/
structure Fed where
  lines : List FedLine
  rest : Text
  no_feed : '\n' ∉ rest

namespace Fed

/-- The text that is cut so. -/
def text (fed : Fed) : Text :=
  fed.lines.flatMap FedLine.text ++ fed.rest

/-- The same lines with other numbers of returns before their feeds. -/
def renew (f : Nat → Nat) (fed : Fed) : Fed :=
  { fed with lines := fed.lines.map fun line => { line with returns := f line.returns } }

end Fed

/-! ## One cut -/

/-- A text with one more line before it. -/
def Fed.cons (line : FedLine) (fed : Fed) : Fed :=
  { fed with lines := line :: fed.lines }

theorem Fed.text_cons (line : FedLine) (fed : Fed) :
    (fed.cons line).text = line.text ++ fed.text := by
  rw [text, cons, List.flatMap_cons, List.append_assoc, text]

/-- Every text can be cut at its feeds. -/
theorem exists_fed (t : Text) : ∃ fed : Fed, fed.text = t := by
  induction t with
  | nil => exact ⟨⟨[], [], List.not_mem_nil⟩, rfl⟩
  | cons c t ih =>
      rcases ih with ⟨⟨lines, rest, hrest⟩, rfl⟩
      by_cases hfeed : c = '\n'
      · refine ⟨Fed.cons ⟨[], 0, List.not_mem_nil, (Option.some_ne_none _).symm⟩
          ⟨lines, rest, hrest⟩, ?_⟩
        rw [Fed.text_cons, hfeed]
        rfl
      have hmem : ∀ {s : Text}, '\n' ∉ s → '\n' ∉ c :: s := fun hs h =>
        (List.mem_cons.mp h).elim (fun heq => hfeed heq.symm) hs
      cases lines with
      | nil => exact ⟨⟨[], c :: rest, hmem hrest⟩, rfl⟩
      | cons line lines =>
          rcases line with ⟨body, returns, hbody, hlast⟩
          cases body with
          | nil =>
              by_cases hreturn : c = '\r'
              · refine ⟨⟨⟨[], returns + 1, hbody, hlast⟩ :: lines, rest, hrest⟩, ?_⟩
                rw [hreturn]
                rfl
              · exact ⟨⟨⟨[c], returns, hmem hbody, fun h => hreturn (Option.some.inj h)⟩ :: lines,
                  rest, hrest⟩, rfl⟩
          | cons d body =>
              have hback : (c :: d :: body).getLast? ≠ some '\r' := by
                rwa [List.getLast?_cons_cons]
              exact ⟨⟨⟨c :: d :: body, returns, hmem hbody, hback⟩ :: lines, rest, hrest⟩, rfl⟩

-- Neither side ends in a return, so the returns are as many.
theorem body_injective {body other : Text} {m n : Nat} (hbody : body.getLast? ≠ some '\r')
    (hother : other.getLast? ≠ some '\r')
    (h : body ++ List.replicate m '\r' = other ++ List.replicate n '\r') :
    body = other ∧ m = n := by
  induction m generalizing n with
  | zero =>
      cases n with
      | zero => exact ⟨by simpa only [List.replicate_zero, List.append_nil] using h, rfl⟩
      | succ n =>
          rw [List.replicate_zero, List.append_nil, List.replicate_succ', ← List.append_assoc] at h
          exact absurd (by rw [h, List.getLast?_concat]) hbody
  | succ m ih =>
      cases n with
      | zero =>
          rw [List.replicate_zero, List.append_nil, List.replicate_succ', ← List.append_assoc] at h
          exact absurd (by rw [← h, List.getLast?_concat]) hother
      | succ n =>
          rw [List.replicate_succ', List.replicate_succ', ← List.append_assoc,
            ← List.append_assoc] at h
          rcases ih (List.append_cancel_right h) with ⟨hsame, hcount⟩
          exact ⟨hsame, congrArg (· + 1) hcount⟩

theorem FedLine.no_feed_front (line : FedLine) :
    '\n' ∉ line.body ++ List.replicate line.returns '\r' := fun h =>
  (List.mem_append.mp h).elim line.no_feed fun hreturn =>
    absurd (List.eq_of_mem_replicate hreturn) (by decide)

theorem FedLine.text_append (line : FedLine) (t : Text) :
    line.text ++ t = (line.body ++ List.replicate line.returns '\r') ++ '\n' :: t := by
  rw [text, ← List.append_assoc, List.append_assoc, List.singleton_append]

-- The first feed of a text is where it is.
theorem first_feed_injective {front other back tail : Text} (hfront : '\n' ∉ front)
    (hother : '\n' ∉ other) (h : front ++ '\n' :: back = other ++ '\n' :: tail) :
    front = other ∧ back = tail := by
  induction front generalizing other with
  | nil =>
      cases other with
      | nil => exact ⟨rfl, (List.cons.inj h).2⟩
      | cons c other => exact absurd ((List.cons.inj h).1 ▸ List.mem_cons_self) hother
  | cons c front ih =>
      cases other with
      | nil => exact absurd ((List.cons.inj h).1 ▸ List.mem_cons_self) hfront
      | cons d other =>
          rcases List.cons.inj h with ⟨rfl, hrest⟩
          rcases ih (fun hmem => hfront (List.mem_cons_of_mem c hmem))
            (fun hmem => hother (List.mem_cons_of_mem c hmem)) hrest with ⟨rfl, hback⟩
          exact ⟨rfl, hback⟩

theorem Fed.feed_mem_text (line : FedLine) (fed : Fed) : '\n' ∈ (fed.cons line).text := by
  rw [Fed.text_cons, FedLine.text_append]
  exact List.mem_append_right _ List.mem_cons_self

/-- There is one cut only. -/
theorem fed_injective {fed other : Fed} (h : fed.text = other.text) : fed = other := by
  rcases fed with ⟨lines, rest, hrest⟩
  rcases other with ⟨others, tail, htail⟩
  induction lines generalizing others with
  | nil =>
      cases others with
      | nil =>
          have hsame : rest = tail := h
          subst hsame
          rfl
      | cons line others =>
          have hmem := Fed.feed_mem_text line ⟨others, tail, htail⟩
          rw [Fed.cons, ← h] at hmem
          exact absurd hmem hrest
  | cons line lines ih =>
      cases others with
      | nil =>
          have hmem := Fed.feed_mem_text line ⟨lines, rest, hrest⟩
          rw [Fed.cons, h] at hmem
          exact absurd hmem htail
      | cons other others =>
          have hcut : line.text ++ Fed.text ⟨lines, rest, hrest⟩
              = other.text ++ Fed.text ⟨others, tail, htail⟩ := by
            rw [← Fed.text_cons, ← Fed.text_cons]
            exact h
          rw [FedLine.text_append, FedLine.text_append] at hcut
          rcases first_feed_injective line.no_feed_front other.no_feed_front hcut with
            ⟨hline, hlines⟩
          rcases body_injective line.no_return other.no_return hline with ⟨hbody, hreturns⟩
          have hsame : line = other := by
            cases line
            cases other
            congr
          have hfed := ih others hlines
          rw [Fed.mk.injEq] at hfed ⊢
          exact ⟨congrArg₂ _ hsame hfed.1, hfed.2⟩

/-! ## Reading and writing line by line -/

-- Within a line that does not end in a return no pair begins.
theorem no_pair_within {c : Char} {body t : Text} (hfeed : '\n' ∉ c :: body)
    (hlast : (c :: body).getLast? ≠ some '\r') (rest : Text) (hc : c = '\r')
    (hpair : body ++ t = '\n' :: rest) : False := by
  cases body with
  | nil => exact hlast (congrArg some hc)
  | cons d body =>
      have hd : d = '\n' := (List.cons.inj hpair).1
      exact hfeed (List.mem_cons_of_mem c (hd ▸ List.mem_cons_self))

-- What holds of a line's body, character by character.
theorem unpair_body_append {body : Text} (hfeed : '\n' ∉ body) (hlast : body.getLast? ≠ some '\r')
    (t : Text) : unpair (body ++ t) = body ++ unpair t
      ∧ hasPair (body ++ t) = hasPair t := by
  induction body with
  | nil => exact ⟨rfl, rfl⟩
  | cons c body ih =>
      have hnone := fun rest => no_pair_within (t := t) hfeed hlast rest
      have hrest : body.getLast? ≠ some '\r' := by
        cases body with
        | nil => exact (Option.some_ne_none _).symm
        | cons d body => rwa [List.getLast?_cons_cons] at hlast
      rcases ih (fun hmem => hfeed (List.mem_cons_of_mem c hmem)) hrest with ⟨hunpair, hpair⟩
      rw [List.cons_append, unpair.eq_3 c _ hnone, hasPair.eq_3 c _ hnone, hunpair, hpair]
      exact ⟨rfl, rfl⟩

-- Two returns in a row begin no pair, so the first one is kept.
theorem unpair_return_return (t : Text) :
    unpair ('\r' :: '\r' :: t) = '\r' :: unpair ('\r' :: t)
      ∧ hasPair ('\r' :: '\r' :: t) = hasPair ('\r' :: t) := by
  have hnone : ∀ rest, '\r' = '\r' → '\r' :: t = '\n' :: rest → False := fun rest _ h =>
    absurd (List.cons.inj h).1 (by decide)
  exact ⟨unpair.eq_3 _ _ hnone, hasPair.eq_3 _ _ hnone⟩

theorem unpair_feed (t : Text) :
    unpair ('\n' :: t) = '\n' :: unpair t ∧ hasPair ('\n' :: t) = hasPair t := by
  have hnone : ∀ rest, '\n' = '\r' → t = '\n' :: rest → False := fun rest h _ =>
    absurd h (by decide)
  exact ⟨unpair.eq_3 _ _ hnone, hasPair.eq_3 _ _ hnone⟩

/-- Of the returns before a feed the last one goes. -/
theorem unpair_returns (n : Nat) (t : Text) :
    unpair (List.replicate n '\r' ++ '\n' :: t)
      = List.replicate (n - 1) '\r' ++ '\n' :: unpair t := by
  induction n with
  | zero => exact (unpair_feed t).1
  | succ n ih =>
      cases n with
      | zero => rfl
      | succ n =>
          rw [List.replicate_succ, List.replicate_succ, List.cons_append, List.cons_append,
            (unpair_return_return _).1, ← List.cons_append, ← List.replicate_succ, ih,
            Nat.add_sub_cancel, Nat.add_sub_cancel, List.replicate_succ, List.cons_append]

/-- A feed with a return before it shows a pair. -/
theorem hasPair_returns (n : Nat) (t : Text) :
    hasPair (List.replicate n '\r' ++ '\n' :: t) = (decide (n ≠ 0) || hasPair t) := by
  induction n with
  | zero => exact (unpair_feed t).2
  | succ n ih =>
      rw [decide_eq_true n.succ_ne_zero, Bool.true_or]
      cases n with
      | zero => rfl
      | succ n =>
          rw [List.replicate_succ, List.replicate_succ, List.cons_append, List.cons_append,
            (unpair_return_return _).2, ← List.cons_append, ← List.replicate_succ, ih,
            decide_eq_true n.succ_ne_zero, Bool.true_or]

theorem unpair_line (line : FedLine) (t : Text) :
    unpair (line.text ++ t) = { line with returns := line.returns - 1 }.text ++ unpair t := by
  rw [FedLine.text, List.append_assoc, (unpair_body_append line.no_feed line.no_return _).1,
    List.append_assoc, List.singleton_append, unpair_returns, FedLine.text, List.append_assoc,
    List.append_assoc, List.singleton_append]

theorem hasPair_line (line : FedLine) (t : Text) :
    hasPair (line.text ++ t) = (decide (line.returns ≠ 0) || hasPair t) := by
  rw [FedLine.text, List.append_assoc, (unpair_body_append line.no_feed line.no_return _).2,
    List.append_assoc, List.singleton_append, hasPair_returns]

theorem hasPair_of_no_feed (t : Text) (h : '\n' ∉ t) : hasPair t = false := by
  fun_induction hasPair t with
  | case1 => rfl
  | case2 rest => exact absurd (List.mem_cons_of_mem _ List.mem_cons_self) h
  | case3 c rest _ ih => exact ih fun hmem => h (List.mem_cons_of_mem c hmem)

/-- Reading takes one return from every run. -/
theorem unpair_fed (fed : Fed) : unpair fed.text = (fed.renew (· - 1)).text := by
  rcases fed with ⟨lines, rest, hrest⟩
  induction lines with
  | nil => exact unpair_eq_self rest (hasPair_of_no_feed rest hrest)
  | cons line lines ih =>
      calc unpair ((Fed.mk lines rest hrest).cons line).text
          = { line with returns := line.returns - 1 }.text
              ++ unpair (Fed.mk lines rest hrest).text := by rw [Fed.text_cons, unpair_line]
        _ = (((Fed.mk lines rest hrest).renew (· - 1)).cons
              { line with returns := line.returns - 1 }).text := by rw [ih, Fed.text_cons]

/-- A text shows pairs when a run is not empty. -/
theorem hasPair_fed (fed : Fed) :
    hasPair fed.text = true ↔ ∃ line ∈ fed.lines, line.returns ≠ 0 := by
  rcases fed with ⟨lines, rest, hrest⟩
  induction lines with
  | nil =>
      refine iff_of_false ?_ fun ⟨line, hmem, _⟩ => List.not_mem_nil hmem
      rw [Fed.text, List.flatMap_nil, List.nil_append, hasPair_of_no_feed rest hrest]
      exact Bool.false_ne_true
  | cons line lines ih =>
      calc hasPair ((Fed.mk lines rest hrest).cons line).text = true
          ↔ line.returns ≠ 0 ∨ hasPair (Fed.mk lines rest hrest).text = true := by
            rw [Fed.text_cons, hasPair_line, Bool.or_eq_true, decide_eq_true_iff]
        _ ↔ ∃ other ∈ line :: lines, other.returns ≠ 0 := by rw [ih, List.exists_mem_cons_iff]

/-- Writing pairs adds one return to every run. -/
theorem withEnding_fed (fed : Fed) :
    withEnding LineEnding.crlf.text fed.text = (fed.renew (· + 1)).text := by
  rcases fed with ⟨lines, rest, hrest⟩
  induction lines with
  | nil => exact withEnding_of_no_feed _ rest hrest
  | cons line lines ih =>
      have hline : withEnding LineEnding.crlf.text line.text
          = { line with returns := line.returns + 1 }.text := by
        have hreturns : '\n' ∉ List.replicate line.returns '\r' := fun h =>
          absurd (List.eq_of_mem_replicate h) (by decide)
        rw [FedLine.text, withEnding_append, withEnding_append,
          withEnding_of_no_feed _ line.body line.no_feed, withEnding_of_no_feed _ _ hreturns,
          FedLine.text, List.replicate_succ', List.append_assoc]
        rfl
      calc withEnding LineEnding.crlf.text ((Fed.mk lines rest hrest).cons line).text
          = { line with returns := line.returns + 1 }.text
              ++ withEnding LineEnding.crlf.text (Fed.mk lines rest hrest).text := by
            rw [Fed.text_cons, withEnding_append, hline]
        _ = (((Fed.mk lines rest hrest).renew (· + 1)).cons
              { line with returns := line.returns + 1 }).text := by rw [ih, Fed.text_cons]

theorem withEnding_lf (t : Text) : withEnding LineEnding.lf.text t = t := by
  refine (List.flatMap_congr fun c _ => ?_).trans (List.flatMap_singleton' t)
  by_cases hfeed : c = '\n'
  · rw [if_pos hfeed, hfeed]
    rfl
  · rw [if_neg hfeed]

/-! ## What is written of a text that was read -/

/-- How many returns are left of a run when the text shows pairs. -/
def settled (n : Nat) : Nat :=
  if n < 2 then 1 else n - 1

/-- What is written, with the ending a text shows, of what was read of it. -/
def rewritten (raw : Text) : Text :=
  withEnding (LineEnding.detect raw).text (unpair (unpair raw))

namespace Fed

theorem renew_renew (f g : Nat → Nat) (fed : Fed) :
    (fed.renew f).renew g = fed.renew fun n => g (f n) := by
  rw [renew, renew, renew, List.map_map]
  rfl

theorem renew_eq_self (f : Nat → Nat) (fed : Fed) :
    fed.renew f = fed ↔ ∀ line ∈ fed.lines, f line.returns = line.returns := by
  rcases fed with ⟨lines, rest, hrest⟩
  have hmap := List.map_inj_left (l := lines) (g := fun line => line)
    (f := fun line => ({ line with returns := f line.returns } : FedLine))
  rw [List.map_id'] at hmap
  rw [renew, Fed.mk.injEq, and_iff_left rfl, hmap]
  refine forall₂_congr fun line _ => ⟨fun h => congrArg FedLine.returns h, fun h => ?_⟩
  rcases line with ⟨body, returns, hfeed, hreturn⟩
  exact (FedLine.mk.injEq ..).mpr ⟨rfl, h⟩

end Fed

theorem settled_eq_self (n : Nat) : settled n = n ↔ n = 1 := by
  rw [settled]
  split <;> omega

/-- What is written of a text that was read: the text itself if no feed has a return
    before it, and otherwise the text with its runs settled. -/
theorem rewritten_fed (fed : Fed) :
    rewritten fed.text
      = if ∀ line ∈ fed.lines, line.returns = 0 then fed.text else (fed.renew settled).text := by
  have hshown : hasPair fed.text = true ↔ ¬ ∀ line ∈ fed.lines, line.returns = 0 := by
    rw [hasPair_fed]
    push Not
    rfl
  rw [rewritten, LineEnding.detect]
  by_cases hpair : hasPair fed.text = true
  · have hsettled : (fun n => n - 1 - 1 + 1) = settled := by
      funext n
      rw [settled]
      split <;> omega
    rw [if_pos hpair, if_neg (hshown.mp hpair), unpair_fed, unpair_fed, withEnding_fed,
      Fed.renew_renew, Fed.renew_renew, hsettled]
  · have hself := unpair_eq_self fed.text (Bool.not_eq_true _ ▸ hpair)
    rw [if_neg hpair, if_pos (not_not.mp fun h => hpair (hshown.mpr h)), withEnding_lf, hself,
      hself]

/-- The texts that are kept. -/
theorem rewritten_eq_iff (fed : Fed) :
    rewritten fed.text = fed.text
      ↔ (∀ line ∈ fed.lines, line.returns = 0) ∨ ∀ line ∈ fed.lines, line.returns = 1 := by
  have hsettled : (fed.renew settled).text = fed.text ↔ ∀ line ∈ fed.lines, line.returns = 1 := by
    have hfixed := Fed.renew_eq_self settled fed
    simp only [settled_eq_self] at hfixed
    exact ⟨fun h => hfixed.mp (fed_injective h), fun h => congrArg Fed.text (hfixed.mpr h)⟩
  rw [rewritten_fed]
  by_cases hnone : ∀ line ∈ fed.lines, line.returns = 0
  · rw [if_pos hnone]
    exact iff_of_true rfl (Or.inl hnone)
  · rw [if_neg hnone, hsettled, or_iff_right hnone]

end Text

end QueryDesk
