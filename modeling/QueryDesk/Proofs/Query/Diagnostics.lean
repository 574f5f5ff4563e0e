import QueryDesk.Proofs.Query.Story

/-!
# The lines of a toolchain for the debug log

A toolchain comes with lines that say how it was found. They wait until the tool is
launched, and the first launch after the resolution takes them. If it ends with a
result, the result has them before its own lines, and no other result has them. If
it fails, there is no result to have them, and they are gone: the launch takes the
lines before it is known how it ends, and does not put them back.

So the lines reach the debug log exactly once or never, and the number of failed
launches between a resolution and the first result tells which.

## Theorems

* `failed_launch_loses_lines`: A launch that fails and one that does not, and no line
  of the toolchain.
* `lines_go_out_once`: Which lines each result has.
-/

namespace QueryDesk

namespace Usage

variable {σ : Type}

/-- The toolchain is found and the tool is not. The next launch of the tool comes to
    its end, and its result has no line of the toolchain. -/
theorem failed_launch_loses_lines :
    let toolchain : Toolchain := ⟨"/go", ["/a"], ["[Toolchain] fixed"]⟩
    let outcomes := [.failed (.notFound "oracle"), .exited 0 [] []]
    let usage : Usage Unit := ⟨.fresh ⟨"main", ["main"], 32⟩ "oracle" (.fixed toolchain),
      { Host.ofFiles ⟨[]⟩ with outcomes }, ()⟩
    let query := Request.execute ⟨"describe", "main", ⟨"/work/a.go", 0, none⟩, []⟩
    let failed := usage.perform query
    failed.1.isOk = false ∧ failed.2.invoker.kept = some toolchain
      ∧ (Reply.result? (failed.2.perform query).1).map RunResult.debug
        = some [("[Oracle] cmd: oracle -pos=/work/a.go:0 -mode=describe main" : Text)] := by
  decide +kernel

/-- The results that come back from any requests are those of their story, in order.
    Wherever a result stands in it, the lines of the toolchain that was resolved since
    the last configuration come before the result's own if nothing came between the
    resolution and this launch, and are not among them otherwise. Where no toolchain
    was resolved, a result has its own lines only. -/
theorem lines_go_out_once (answers : Answers) (session : Session) (command : Text)
    (source : ToolchainSource) (host : Host) (state : σ) (requests : List (Request σ)) :
    let usage : Usage σ := ⟨.fresh session command source, host, state⟩
    let story := usage.story answers requests
    usage.results answers requests = story.filterMap Happening.result?
      ∧ (∀ before source toolchain between result after,
        story = before ++ .asked source (.ok toolchain)
          :: (between ++ .launched (.ok result) :: after) →
        (∀ given, .configured given ∉ between) →
        result.debug = (if between = [] then toolchain.debug else []) ++ result.own)
      ∧ ∀ before result after, story = before ++ .launched (.ok result) :: after →
        (∀ earlier source toolchain between,
          before = earlier ++ .asked source (.ok toolchain) :: between →
          ∃ given, .configured given ∈ between) →
        result.debug = result.own := by
  intro usage story
  have hlawful : usage.invoker.ledger.Lawful story := (usage.story_lawful answers requests).1
  refine ⟨(usage.story_results answers requests).symm, ?_, ?_⟩
  · intro before source toolchain between result after hstory hbetween
    rw [hstory, Ledger.lawful_append] at hlawful
    have hlater := Ledger.lawful_append.mp hlawful.2.2
    have hwaiting := (hlater.1.kept rfl hbetween).2.2
    cases hlater.2.1 with
    | finished result hdebug =>
        rw [hdebug, hwaiting]
        rfl
  · intro before result after hstory hunresolved
    rw [hstory] at hlawful
    -- A toolchain kept here would have been resolved since the last configuration.
    have hkept : (usage.invoker.ledger.noteAll before).kept = none := by
      by_contra h
      rcases Option.ne_none_iff_exists'.mp h with ⟨toolchain, hkept⟩
      rcases Ledger.resolved_of_kept rfl hkept with
        ⟨earlier, source, between, hbefore, hbetween⟩
      rcases hunresolved earlier source toolchain between hbefore with ⟨given, hgiven⟩
      exact hbetween given hgiven
    have hwaiting := Ledger.waiting_noteAll (fun _ => rfl) hkept
    cases hlawful.allows with
    | finished result hdebug => rw [hdebug, hwaiting, List.nil_append]

end Usage

end QueryDesk
