import SocketRpc.Proofs.Framing.Chunking
import SocketRpc.Proofs.Json.Places

namespace SocketRpc.Proofs.Framing
open SocketRpc.Json SocketRpc.Framing SocketRpc.Proofs.Json Ascii

variable {bufferSize limit : Nat} {p : Progress} {ending : Ending} {b : UInt8}
variable {text rest chunk : List UInt8} {more : List (List UInt8)} {value : Json}

theorem verdictAfter_of_fires (fires : (Boundary.start.feed chunk).2 = true) :
    verdictAfter [] chunk = scan chunk :=
  if_pos fires

def Delayed (limit : Nat) (text back : List UInt8) (more : List (List UInt8)) : Prop :=
  (readReply (text ++ back).length limit ⟨text :: back :: more, .close⟩).outcome ≠
    (readReply (text ++ back).length limit ⟨(text ++ back) :: more, .close⟩).outcome

theorem delayed_literal {blanks word : List UInt8} (blank : ∀ c ∈ blanks, isBlank c)
    (literal : Word word value) (stuck : mayFollow b = false)
    (room : (blanks ++ word ++ b :: rest).length ≤ limit) :
    Delayed limit (blanks ++ word) (b :: rest) more := by
  obtain ⟨part, last, r, shape, goes, step⟩ := literal_ends blank literal
  have ne : blanks ++ word ≠ [] := by simp [shape]
  have fires (after : List UInt8) : (Boundary.start.feed (blanks ++ word ++ after)).2 = true := by
    rw [shape, List.append_assoc, List.append_assoc, List.singleton_append, feed_append,
      fires_of_done goes step after, Bool.or_true]
  have early : verdictAfter [] (blanks ++ word) = .complete value (blanks ++ word).length := by
    rw [verdictAfter_of_fires (by simpa using fires []), ← List.append_nil (blanks ++ word),
      scan_literal blank literal]
    simp
  have late : scan (blanks ++ word ++ b :: rest) = .invalid := by
    rw [scan_literal blank literal]
    simp [stuck]
  obtain ⟨e, parse, -⟩ := parse_of_invalid late
  rw [Delayed, outcome_of_first ne (by simp) (by simp at room ⊢; omega), early,
    outcome_of_first (by simp) (Nat.le_refl _) room,
    verdictAfter_of_fires (fires _), late, conclude_error (by simp) parse]
  simp [Outcome.ofResult]

theorem scan_of_range (read : Json.read Json.maxDepth text = .error ⟨.numberOutOfRange, 0, 0⟩) :
    scan text = .invalid := by
  unfold scan
  split
  · next blank =>
      rw [read_reaches_all (advance_blanks Json.maxDepth (blank_of_skipBlanks blank))] at read
      cases read
  · rw [read]
    rfl

theorem range_turns (read : Json.read Json.maxDepth text = .error ⟨.numberOutOfRange, 0, 0⟩)
    (turns : Json.read Json.maxDepth (text ++ [b]) ≠ .error ⟨.numberOutOfRange, 1, 0⟩) (rest : List UInt8) :
    Json.parse (text ++ b :: rest) ≠ .error (Fault.toError text ⟨.numberOutOfRange, 0, 0⟩) := by
  intro same
  -- The number is open at the end of the text, or its exponent has just become too large. In the second
  -- case no byte turns the fault, in the first one any later fault has another place.
  rcases advance_or_stop Json.maxDepth .start text with ⟨r, goes⟩ | ⟨front, c, more, r, rfl, goes, stop⟩
  · have whole := read_reaches goes (b :: rest)
    cases result : r.run Json.maxDepth (b :: rest) with
    | ok answer =>
        obtain ⟨tree, after⟩ := answer
        simp only [Json.parse, whole, result] at same
        split at same
        · next fault found =>
            have cause := congrArg JsonError.cause (Except.error.inj same)
            simp [Fault.toError, (trailing_reason found).1] at cause
        · cases same
    | error fault =>
        rw [parse_of_read_error (whole.trans result), ← toError_append text (b :: rest)] at same
        simp only [Fault.toError, Except.error.injEq, JsonError.mk.injEq, Cause.malformed.injEq,
          Option.some.injEq] at same
        obtain ⟨range, place⟩ := same
        obtain ⟨back, unread⟩ := run_later result range fun before =>
          turns (by simp [read_reaches goes, Reader.run, before])
        rw [back] at place
        refine place_injective ?_ ?_ place.symm
        · simp only [List.length_append, List.length_cons]
          omega
        · omega
  · rw [read_reaches goes, Reader.run] at read
    rw [List.append_assoc, List.cons_append, read_reaches goes, Reader.run] at turns
    cases step : r.step Json.maxDepth c with
    | more next => exact stop next step
    | done value => simp [step] at read
    | doneBefore value => simp [step] at read
    | refusedBefore reason => simp [step] at read
    | refused reason back =>
        simp only [step, Except.error.injEq, Fault.mk.injEq] at read turns
        simp [read] at turns

theorem delayed_range (fires : (Boundary.start.feed text).2 = true)
    (read : Json.read Json.maxDepth text = .error ⟨.numberOutOfRange, 0, 0⟩)
    (turns : Json.read Json.maxDepth (text ++ [b]) ≠ .error ⟨.numberOutOfRange, 1, 0⟩)
    (room : (text ++ b :: rest).length ≤ limit)
    (ends : (text ++ b :: rest).length = limit ∨ more = []) : Delayed limit text (b :: rest) more := by
  have invalid := scan_of_range read
  have ne := ne_of_invalid invalid
  have settled : (Fault.toError text ⟨.numberOutOfRange, 0, 0⟩).category ≠ .truncated := by
    simp [category_toError, SyntaxError.isEnd]
  have early :
      (readReply (text ++ b :: rest).length limit ⟨text :: (b :: rest) :: more, .close⟩).outcome =
        .failed (.malformed (Fault.toError text ⟨.numberOutOfRange, 0, 0⟩)) := by
    rw [outcome_of_first ne (by simp) (by simp at room; omega), verdictAfter_of_fires fires, invalid]
    simp [conclude_error ne (parse_of_read_error read), settled, Outcome.ofResult]
  rw [Delayed, early, outcome_of_first (by simp) (Nat.le_refl _) room,
    verdictAfter_of_fires (by rw [feed_append, fires, Bool.true_or])]
  intro same
  split at same
  · cases same
  · exact range_turns read turns rest (conclude_malformed same.symm)
  · rw [outcome_of_rest (by simpa [Progress.start] using ends)] at same
    exact range_turns read turns rest (by simpa [Progress.start] using conclude_malformed same.symm)

theorem delayed_number (denotes : Denotes text value) (number : value.isNumber) (opens : isOpening b)
    (quiet : (Boundary.start.feed (b :: rest)).2 = false)
    (room : (text ++ b :: rest).length ≤ limit)
    (ends : (text ++ b :: rest).length = limit ∨ more = []) : Delayed limit text (b :: rest) more := by
  obtain ⟨r, tree, goes, complete, rfl, step⟩ := number_ends_before denotes number opens
  have follows : mayFollow b = true := by simp [mayFollow, opens]
  have plain := plain_of_finish goes complete
  have start : (Boundary.start.feed text).1 = .start := feed_plain plain
  have early : verdictAfter [] text = .incomplete := by
    rcases verdictAfter_cases [] text with quiet | ⟨inspected, -⟩
    · exact quiet
    · rw [inspected, List.nil_append, scan_open goes, complete]
  have later : verdictAfter text (b :: rest) = .incomplete := by
    rw [verdictAfter, start, quiet]
    rfl
  have ne : text ≠ [] := by rintro rfl; cases denotes.1
  have fires : (Boundary.start.feed (text ++ b :: rest)).2 = true := fires_of_plain plain ne (b :: rest)
  obtain ⟨e, -, trailing⟩ := parse_number_opening denotes number opens
  have split : text.length + (b :: rest).length ≤ limit := by simpa using room
  rw [Delayed, outcome_of_first ne (by simp) (by omega), early,
    outcome_of_first (by simp) (Nat.le_refl _) room, verdictAfter_of_fires fires,
    scan_doneBefore goes step, if_pos follows]
  have kept : Kept limit (Progress.start.absorb text).1 :=
    (kept_absorb ⟨rfl, Nat.zero_le limit⟩ (by simp [Progress.start]; omega) rfl).1
  have bytes : (Progress.start.absorb text).1.received.toList = text :=
    Progress.start.toList_received_absorb text
  generalize (Progress.start.absorb text).1 = held at kept bytes ⊢
  have size : held.received.size = text.length := by rw [← bytes, Array.length_toList]
  rw [← bytes] at later
  simp only []
  rw [outcome_of_chunk kept (by simp) (by simp) (by omega), later]
  simp only []
  rw [outcome_of_rest (by simpa [size] using ends), Progress.toList_received_absorb, bytes,
    conclude_error (by simp) (trailing rest)]
  simp [Outcome.ofResult]

/-- Bytes of each of the kinds can come in so that the outcome is another one. -/
theorem chunks_matter {limit : Nat} {bytes : List UInt8} (h : LiteralRunsOn (bytes.take limit) ∨
    RangeTurns (bytes.take limit) ∨ NumberRunsInto (bytes.take limit)) :
    ∃ s s' : Stream, [] ∉ s.chunks ∧ [] ∉ s'.chunks ∧ s.ending = .close ∧ s'.ending = .close ∧
      sent s = bytes ∧ sent s' = bytes ∧ ∃ size, 0 < size ∧
        (readReply size limit s).outcome ≠ (readReply size limit s').outcome := by
  obtain ⟨more, nonempty, flat, ends⟩ : ∃ more : List (List UInt8), [] ∉ more ∧
      more.flatten = bytes.drop limit ∧ ((bytes.take limit).length = limit ∨ more = []) := by
    cases drop : bytes.drop limit with
    | nil => exact ⟨[], by simp, rfl, .inr rfl⟩
    | cons c beyond =>
        have long : limit ≤ bytes.length := by
          refine Nat.le_of_not_lt fun short => ?_
          simp [List.drop_of_length_le (Nat.le_of_lt short)] at drop
        exact ⟨[c :: beyond], by simp, by simp, .inl (by simp [long])⟩
  have room : (bytes.take limit).length ≤ limit := List.length_take_le limit bytes
  obtain ⟨text, b, rest, ne, shape, delayed⟩ : ∃ text b rest, text ≠ [] ∧
      bytes.take limit = text ++ b :: rest ∧ Delayed limit text (b :: rest) more := by
    rcases h with ⟨blanks, word, value, b, rest, shape, blank, literal, stuck⟩ |
      ⟨text, b, rest, shape, fires, read, turns⟩ | ⟨text, value, b, rest, shape, denotes, number, opens, quiet⟩
    all_goals rw [shape] at room ends
    · have ne : blanks ++ word ≠ [] := by cases literal <;> simp
      exact ⟨_, b, rest, ne, shape, delayed_literal blank literal stuck room⟩
    · have ne : text ≠ [] := by rintro rfl; cases fires
      exact ⟨text, b, rest, ne, shape, delayed_range fires read turns room ends⟩
    · have ne : text ≠ [] := by rintro rfl; cases denotes.1
      exact ⟨text, b, rest, ne, shape, delayed_number denotes number opens quiet room ends⟩
  have whole := List.take_append_drop limit bytes
  rw [shape, ← flat] at whole
  exact ⟨_, _, by simp [ne.symm, nonempty], by simp [nonempty], rfl, rfl, by simpa [sent] using whole,
    by simpa [sent] using whole, _, List.length_pos_iff.2 (by simp), delayed⟩

end SocketRpc.Proofs.Framing
