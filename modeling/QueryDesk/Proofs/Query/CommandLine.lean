import QueryDesk.Proofs.Text.Numeral
import QueryDesk.Proofs.Text.Split
import QueryDesk.Query.Invocation

/-!
# What a command line tells

A path may hold colons, minus signs and digits, and so may end just as a
descriptor does. The offsets that are written after it hold no colon: so the last
colon of what is written is the one that was put after the path, and what follows
it is read from its front, a number and what stops it.

So a descriptor is told by how it is written, and a query by its arguments, but
for how the words of its scope are spaced and for the variables that are set for
the tool.

## Main definitions

* `Descriptor.ending`: What is written of the end of a range.
* `Descriptor.offsets`: What is written of a descriptor after its path.

## Theorems

* `format_eq`: A descriptor is written as its path, a colon and its offsets.
* `colon_not_mem_offsets`: No colon is among the offsets.
* `offsets_inj`: The offsets are told by how they are written.
* `format_inj`: A descriptor is told by how it is written.
* `told_by_arguments`: Descriptors and queries are told by what the tool is given.
-/

namespace QueryDesk

namespace Descriptor

/-- What is written of the end of a range: nothing when there is none. -/
def ending : Option Int → Text
  | none => []
  | some stop => '-' :: Text.ofInt stop

/-- What is written of a descriptor after its path and the colon. -/
def offsets (position : Descriptor) : Text :=
  Text.ofInt position.start ++ ending position.stop

/-- A descriptor is written as its path, a colon and its offsets. -/
theorem format_eq (position : Descriptor) :
    position.format = position.path ++ ':' :: position.offsets := by
  rcases position with ⟨path, start, _ | stop⟩
  · exact congrArg (path ++ ':' :: ·) (List.append_nil (Text.ofInt start)).symm
  · exact List.append_assoc path (':' :: Text.ofInt start) ('-' :: Text.ofInt stop)

theorem colon_not_mem_ofInt (n : Int) : ':' ∉ Text.ofInt n := by
  intro h
  rcases Text.mem_ofInt h with hminus | hdigit
  · exact absurd hminus (by decide)
  · exact absurd hdigit (by decide)

theorem colon_not_mem_ending (stop : Option Int) : ':' ∉ ending stop := by
  cases stop with
  | none => exact List.not_mem_nil
  | some stop => exact List.not_mem_cons_of_ne_of_not_mem (by decide) (colon_not_mem_ofInt stop)

/-- No colon is among the offsets, so the last colon is the one after the path. -/
theorem colon_not_mem_offsets (position : Descriptor) : ':' ∉ position.offsets := by
  rw [offsets, List.mem_append, not_or]
  exact ⟨colon_not_mem_ofInt position.start, colon_not_mem_ending position.stop⟩

theorem ending_stops (stop : Option Int) : Text.Stops Char.isDigit (ending stop) := by
  cases stop with
  | none => exact fun c hc => absurd hc (by simp only [ending, List.head?_nil, reduceCtorEq,
      not_false_eq_true])
  | some stop => exact Text.Stops.cons (by decide) (Text.ofInt stop)

theorem ending_inj {stop other : Option Int} (h : ending stop = ending other) : stop = other := by
  cases stop with
  | none =>
      cases other with
      | none => rfl
      | some other => exact absurd h (List.cons_ne_nil _ _).symm
  | some stop =>
      cases other with
      | none => exact absurd h (List.cons_ne_nil _ _)
      | some other =>
          have hnumbers : Text.ofInt stop ++ [] = Text.ofInt other ++ [] := by
            rw [List.append_nil, List.append_nil]
            exact (List.cons.inj h).2
          exact congrArg some
            (Text.ofInt_append_inj (ending_stops none) (ending_stops none) hnumbers).1

/-- The offsets are told by how they are written: the first is a number that a minus sign
    stops, or the end of the text. -/
theorem offsets_inj {first second : Descriptor} (h : first.offsets = second.offsets) :
    first.start = second.start ∧ first.stop = second.stop :=
  (Text.ofInt_append_inj (ending_stops first.stop) (ending_stops second.stop) h).imp_right
    ending_inj

/-- A descriptor is told by how it is written. -/
theorem format_inj {first second : Descriptor} (h : first.format = second.format) :
    first = second := by
  rw [format_eq, format_eq] at h
  rcases Text.append_cons_inj (colon_not_mem_offsets first) (colon_not_mem_offsets second) h
    with ⟨hpath, hoffsets⟩
  rcases offsets_inj hoffsets with ⟨hstart, hstop⟩
  rcases first with ⟨path, start, stop⟩
  rcases second with ⟨other, _, _⟩
  cases hpath
  cases hstart
  cases hstop
  rfl

end Descriptor

namespace Invocation

theorem arguments_inj {tool other : Text} {first second : Invocation}
    (h : first.arguments tool = second.arguments other) :
    tool = other ∧ first.position = second.position ∧ first.mode = second.mode
      ∧ first.scopeWords = second.scopeWords := by
  -- The tool, the position and the mode are an argument each, and the words of the scope are
  -- what follows them.
  rcases List.cons.inj h with ⟨htool, h⟩
  rcases List.cons.inj h with ⟨hposition, h⟩
  rcases List.cons.inj h with ⟨hmode, hwords⟩
  exact ⟨htool, Descriptor.format_inj (List.append_cancel_left hposition),
    List.append_cancel_left hmode, hwords⟩

/-- Two descriptors are written alike only when they have one path, one start and one end,
    or no end either, whatever characters their paths hold and whatever numbers their
    offsets are. Two queries are put to a tool with the same arguments only when it is one
    tool and they agree in the position, the mode and the words of the scope. -/
theorem told_by_arguments :
    (∀ first second : Descriptor, first.format = second.format ↔
      first.path = second.path ∧ first.start = second.start ∧ first.stop = second.stop)
    ∧ ∀ (tool other : Text) (first second : Invocation),
      first.arguments tool = second.arguments other ↔
        tool = other ∧ first.position = second.position ∧ first.mode = second.mode
          ∧ first.scopeWords = second.scopeWords := by
  refine ⟨fun first second => ⟨fun h => ?_, ?_⟩,
    fun tool other first second => ⟨arguments_inj, ?_⟩⟩
  · have hsame : first = second := Descriptor.format_inj h
    exact ⟨congrArg _ hsame, congrArg _ hsame, congrArg _ hsame⟩
  · rintro ⟨hpath, hstart, hstop⟩
    rw [Descriptor.format, Descriptor.format, hpath, hstart, hstop]
  · rintro ⟨rfl, hposition, hmode, hwords⟩
    rw [arguments, arguments, argumentsAt, argumentsAt, hposition, hmode, hwords]

/-- A path that ends as a range does is no range of a shorter path. -/
example : (⟨"/a.go:1-2".toList, 3, none⟩ : Descriptor).format = "/a.go:1-2:3".toList := by
  decide

end Invocation

end QueryDesk
