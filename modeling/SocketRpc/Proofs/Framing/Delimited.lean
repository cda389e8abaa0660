import SocketRpc.Proofs.Framing.Run

namespace SocketRpc.Proofs.Framing
open SocketRpc.Json SocketRpc.Framing SocketRpc.Proofs.Json Ascii

variable {bufferSize limit : Nat} {s : Stream} {t : Transcript} {b first : UInt8}
variable {text more rest ahead : List UInt8} {chunks last : List (List UInt8)} {value : Json}

theorem denotes_opened (opens : Opens first) (h : Denotes (first :: more) value) :
    ∃ front b r tree, first :: more = front ++ [b] ∧ Reaches front r ∧
      r.step Json.maxDepth b = .done tree ∧
      ∀ rest, scan (front ++ b :: rest) = .complete value (first :: more).length := by
  have notBlank := (opening_of_opens opens).2
  have begins {blanks begin : List UInt8} {c : UInt8} (shape : first :: more = blanks ++ c :: begin)
      (blank : ∀ c ∈ blanks, isBlank c) : first = c := by
    cases blanks with
    | nil => exact (List.cons.inj shape).1
    | cons d blanks =>
        cases (List.cons.inj shape).1
        rw [blank first (by simp)] at notBlank
        cases notBlank
  rcases ended_of_denotes h with ⟨front, b, r, tree, shape, goes, step, rfl⟩ | ⟨r, tree, goes, ends, -⟩
  · refine ⟨front, b, r, tree, shape, goes, step, fun rest => ?_⟩
    obtain ⟨-, -, blanks, c, begin, shape', blank, -, verdict⟩ := scan_done goes step
    obtain rfl := begins (shape.trans shape') blank
    have opening := (opening_of_opens opens).1
    rw [verdict, shape]
    cases rest <;> simp [judge, opening, (scan_done goes step).1]
  · obtain ⟨blanks, c, begin, shape, blank, numeric⟩ := solid_of_advance goes ends
    obtain rfl := begins shape blank
    have opening := isOpening_numeric (numeric first (by simp))
    rw [(opening_of_opens opens).1] at opening
    cases opening

theorem opened_settles {bytes : List UInt8} (opens : Opens first) (begins : first :: more <+: bytes)
    (denotes : Denotes (first :: more) value) : Settles bytes (first :: more).length value := by
  obtain ⟨front, b, r, tree, shape, goes, step, settled⟩ := denotes_opened opens denotes
  have size : (first :: more).length = front.length + 1 := by rw [shape, List.length_append, List.length_singleton]
  rw [size]
  refine ⟨fun held chunk within short => ?_, fun held chunk within short long => ?_⟩
  · rcases verdictAfter_cases held chunk with quiet | ⟨inspected, fires⟩
    · exact quiet
    · have inside := List.prefix_of_prefix_length_le within begins (by omega)
      have open_ : held ++ chunk <+: front :=
        List.prefix_of_prefix_length_le inside ⟨[b], shape.symm⟩ (Nat.le_of_lt_succ short)
      obtain ⟨mid, rfl⟩ := open_
      obtain ⟨next, goes, -⟩ := advance_append.1 goes
      rw [inspected]
      exact scan_opened opens inside goes fires
  · -- The chunk holds the last byte of the value, which asks for the inspection.
    have front_within : front ++ [b] <+: held ++ chunk :=
      List.prefix_of_prefix_length_le (shape ▸ begins) within (by simpa using long)
    obtain ⟨mid, rfl⟩ := List.prefix_of_prefix_length_le ((List.prefix_append held chunk).trans within)
      ((List.prefix_append front [b]).trans (shape ▸ begins)) (Nat.le_of_lt_succ short)
    rw [List.append_assoc] at front_within
    obtain ⟨rest, rfl⟩ := (List.prefix_append_right_inj held).1 front_within
    refine ⟨(first :: more).length, ?_⟩
    have fires := fires_of_done goes step rest
    rw [List.append_assoc, List.singleton_append, verdictAfter, if_pos fires, ← List.append_assoc, settled]

theorem course_finds (course : Course limit [] s t chunks last ahead) (opens : Opens first)
    (allowed : first :: more <+: (sent s).take limit) (denotes : Denotes (first :: more) value) :
    t.outcome = .value value ∧ ∃ chunk, last = [chunk] ∧
      chunks.flatten.length < (first :: more).length ∧
      (first :: more).length ≤ (chunks ++ [chunk]).flatten.length := by
  obtain ⟨begins, room⟩ := List.prefix_take_iff.1 allowed
  exact course_settles course (opened_settles opens begins denotes) (Nat.succ_pos _) room begins.length_le

theorem course_fails (course : Course limit [] s t chunks last ahead) (close : s.ending = .close)
    (begins : (sent s).take limit = first :: rest) (opens : Opens first)
    (absent : ∀ text value, text <+: (sent s).take limit → ¬ Denotes text value) :
    ∃ e, Json.parse ((sent s).take limit) = .error e ∧ t.outcome = .failed
      (if e.category = .truncated ∧ limit ≤ (sent s).length then .tooLarge limit else .malformed e) := by
  have within := course.within
  have ends := course.closed_cases close
  rw [begins] at within absent ends ⊢
  cases parse : Json.parse (first :: rest) with
  | ok value =>
      obtain ⟨text, blanks, shape, ended, -⟩ := ended_of_parse parse
      exact absurd (denotes_of_ended ended) (absent text value ⟨blanks, shape.symm⟩)
  | error e =>
      refine ⟨e, rfl, ?_⟩
      rcases ends with ⟨value, used, scanned, -⟩ | ⟨scanned, fires, outcome⟩ | ⟨-, outcome⟩
      · obtain ⟨-, denotes, -⟩ := denotes_of_scan scanned
        exact absurd denotes (absent _ _ ((List.take_prefix _ _).trans within))
      · rcases invalid_for_good scanned with ⟨r, goes⟩ | ⟨e', settled, errors⟩
        · cases scanned.symm.trans (scan_opened opens within goes fires)
        · obtain ⟨beyond, shape⟩ := within
          have same := (errors beyond).2
          rw [shape, parse] at same
          cases same
          rw [outcome, conclude_error (ne_of_invalid scanned) (by simpa using (errors []).2)]
          simp [Outcome.ofResult, settled]
      · rw [outcome, conclude_error (by simp) parse]
        simp [Outcome.ofResult]

/-- The outcome of a reading from a stream whose first byte opens a value depends on nothing but the
bytes sent and the limit. The call that gives the last byte of the value is the last one. -/
theorem opened_reply (positive : 0 < bufferSize) (room : 0 < limit) (nonempty : [] ∉ s.chunks)
    (close : s.ending = .close) (opening : ∃ first rest, sent s = first :: rest ∧ isOpening first) :
    (∀ text value, text <+: (sent s).take limit → Denotes text value →
      (readReply bufferSize limit s).outcome = .value value ∧
      ∃ before chunk, receipts (readReply bufferSize limit s).wants s = before ++ [chunk] ∧
        before.flatten.length < text.length ∧
        text.length ≤ (before ++ [chunk]).flatten.length) ∧
    ((∀ text value, text <+: (sent s).take limit → ¬ Denotes text value) →
      ∃ e, Json.parse ((sent s).take limit) = .error e ∧
        (readReply bufferSize limit s).outcome = .failed
          (if e.category = .truncated ∧ limit ≤ (sent s).length then .tooLarge limit
            else .malformed e)) := by
  obtain ⟨first, rest, bytes, opens⟩ := opening
  have opens := opens_of_isOpening opens
  obtain ⟨chunks, last, ahead, course⟩ := readReply_course limit positive nonempty
  obtain ⟨bound, rfl⟩ := Nat.exists_eq_succ_of_ne_zero (Nat.ne_of_gt room)
  have begins : (sent s).take (bound + 1) = first :: rest.take bound := by simp [bytes]
  refine ⟨fun text value within denotes => ?_, course_fails course close begins opens⟩
  cases text with
  | nil => cases denotes.1
  | cons c more =>
      obtain ⟨after, shape⟩ := within
      obtain ⟨rfl, -⟩ := List.cons.inj (shape.trans begins)
      obtain ⟨outcome, chunk, rfl, short, long⟩ := course_finds course opens ⟨after, shape⟩ denotes
      exact ⟨outcome, chunks, chunk, course.given, short, long⟩

theorem opened_reply_of_empty_array :
    (readReply 2 8 ⟨[[openBracket], [closeBracket, quote]], .close⟩).outcome = .value (.array []) :=
  ((opened_reply (by decide) (by decide) (by decide) rfl ⟨openBracket, _, rfl, rfl⟩).1
    [openBracket, closeBracket] (.array []) ⟨[quote], rfl⟩ ⟨rfl, by simp; rfl⟩).1

end SocketRpc.Proofs.Framing
