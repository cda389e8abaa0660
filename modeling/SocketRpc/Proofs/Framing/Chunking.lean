import SocketRpc.Proofs.Framing.Literal
import SocketRpc.Proofs.Framing.Run

/-!
# Replies in different chunks

The chunks in which a reply comes in decide when the bytes are inspected. Mostly this makes no
difference: a reading comes to the same as if all the bytes allowed came in at once (`course_at_once`).

* A literal is complete as soon as its last letter has come in, but not once a byte has come in after
  it that may not follow it (`LiteralRunsOn`, `course_of_literal`).
* `RangeTurns` and `NumberRunsInto` are the other bytes for which the chunks matter.
* `same_reply`: except for these, two readings of the same bytes have the same outcome.
-/

namespace SocketRpc.Proofs.Framing
open SocketRpc.Json SocketRpc.Framing SocketRpc.Proofs.Json Ascii

variable {bufferSize limit used : Nat} {s : Stream} {t : Transcript} {b : UInt8} {r : Reader}
variable {blanks word text more rest ahead : List UInt8} {chunks last : List (List UInt8)} {value : Json}

def LiteralRunsOn (bytes : List UInt8) : Prop :=
  ∃ blanks word value b rest, bytes = blanks ++ word ++ b :: rest ∧ (∀ c ∈ blanks, isBlank c) ∧
    Word word value ∧ mayFollow b = false

/-- The bytes break off in a number that is too large as it stands, where they may be inspected, and
the next byte is still one of the number. -/
def RangeTurns (bytes : List UInt8) : Prop :=
  ∃ text b rest, bytes = text ++ b :: rest ∧ (Boundary.start.feed text).2 = true ∧
    Json.read Json.maxDepth text = .error ⟨.numberOutOfRange, 0, 0⟩ ∧
    Json.read Json.maxDepth (text ++ [b]) ≠ .error ⟨.numberOutOfRange, 1, 0⟩

/-- A number and a byte right after it that opens a value, from which on no byte asks for an
inspection. -/
def NumberRunsInto (bytes : List UInt8) : Prop :=
  ∃ text value b rest, bytes = text ++ b :: rest ∧ Denotes text value ∧ value.isNumber ∧
    isOpening b ∧ (Boundary.start.feed (b :: rest)).2 = false

def atOnce (limit : Nat) (bytes : List UInt8) : Outcome :=
  match scan (bytes.take limit) with
  | .complete value _ => .value value
  | _ => .ofResult (conclude limit (bytes.take limit) (decide (bytes.length < limit)))

theorem complete_for_good (h : scan text = .complete value used) (apart : ¬ LiteralRunsOn (text ++ more)) :
    scan (text ++ more) = .complete value used := by
  rcases complete_cases h with ⟨-, stays⟩ | ⟨blanks, word, rfl, blank, literal, rfl⟩
  · exact stays more
  · rw [scan_literal blank literal]
    cases more with
    | nil => rfl
    | cons b more =>
        have follows : mayFollow b = true := Bool.of_not_eq_false fun stuck =>
          apart ⟨blanks, word, value, b, more, rfl, blank, literal, stuck⟩
        exact if_pos follows

theorem refused_of_range (goes : Reaches text r)
    (next : ¬ Json.read Json.maxDepth (text ++ [b]) ≠ .error ⟨.numberOutOfRange, 1, 0⟩) :
    r.step Json.maxDepth b = .refusedBefore .numberOutOfRange := by
  have next := Classical.not_not.1 next
  rw [read_reaches goes, Reader.run] at next
  cases step : r.step Json.maxDepth b with
  | more after =>
      simp only [step, Reader.run] at next
      cases ends : after.finish <;> simp [ends] at next
  | done tree => simp [step] at next
  | doneBefore tree => simp [step] at next
  | refused reason back => simp [step] at next
  | refusedBefore reason =>
      simp only [step] at next
      cases next
      rfl

theorem error_for_good (h : scan text = .invalid) (fires : (Boundary.start.feed text).2 = true)
    (apart : ¬ RangeTurns (text ++ more)) : ∃ e, e.category ≠ .truncated ∧
      Json.parse text = .error e ∧ scan (text ++ more) = .invalid ∧
      Json.parse (text ++ more) = .error e := by
  rcases invalid_for_good h with ⟨r, goes⟩ | ⟨e, settled, errors⟩
  -- Only a number at the end can be invalid while it is open. It stays so if the next byte ends it.
  · have ends := open_invalid goes h
    have parse := parse_open goes ends
    refine ⟨_, by simp [category_toError, SyntaxError.isEnd], parse, ?_⟩
    cases more with
    | nil => simp [h, parse]
    | cons c more =>
        have stops := refused_of_range goes fun turns =>
          apart ⟨text, c, more, rfl, fires, by rw [read_reaches_all goes, Reader.run, ends], turns⟩
        exact ⟨scan_refused goes (.inr stops) more, parse_refusedBefore goes stops more⟩
  · exact ⟨e, settled, by simpa using (errors []).2, errors more⟩

theorem unsettled_ne_complete (h : Unsettled [] chunks) (apart : ¬ NumberRunsInto chunks.flatten) :
    scan chunks.flatten ≠ .complete value used := by
  intro scanned
  rcases open_or_stopped chunks.flatten with ⟨r, goes⟩ | ⟨text, b, rest, r, shape, goes, stop⟩
  · exact scan_open_ne_complete goes scanned
  · rw [shape] at scanned apart
    rcases stop with ⟨tree, step⟩ | ⟨tree, step⟩ | ⟨e, -, refused⟩
    · exact unsettled_of_done h goes step shape
    · have ends := finish_of_doneBefore (trace_of_advance goes) step
      have follows : mayFollow b = true := by
        rw [scan_doneBefore goes step] at scanned
        split at scanned
        · assumption
        · cases scanned
      -- The bytes before `b` are plain, so the boundary is at its start again from `b` on.
      have quiet : (Boundary.start.feed (b :: rest)).2 = false := by
        obtain ⟨before, within, split, quiet⟩ := unsettled_quiet h shape fun rest => by
          simp [scan_doneBefore goes step, follows]
        have plain : ∀ c ∈ before ++ within, isStructural c = false := split ▸ plain_of_finish goes ends
        have start : ((Boundary.start.feed before).1.feed within).1 = .start := by
          have whole : (Boundary.start.feed (before ++ within)).1 = .start := feed_plain plain
          rwa [feed_append] at whole
        rw [List.nil_append, feed_append, start, Bool.or_eq_false_iff] at quiet
        exact quiet.2
      exact apart ⟨text, _, b, rest, rfl, denotes_open goes ends, by rw [isNumber_canonical, (finish_ok ends).1],
        opening_of_quiet quiet, quiet⟩
    · cases (refused rest).1.symm.trans scanned

theorem course_at_once (course : Course limit [] s t chunks last ahead) (close : s.ending = .close)
    (literal : ¬ LiteralRunsOn ((sent s).take limit)) (range : ¬ RangeTurns ((sent s).take limit))
    (number : ¬ NumberRunsInto ((sent s).take limit)) : t.outcome = atOnce limit (sent s) := by
  obtain ⟨more, shape⟩ := course.within
  unfold atOnce
  rcases course.closed_cases close with
    ⟨value, used, scanned, outcome⟩ | ⟨scanned, fires, outcome⟩ | ⟨all, outcome⟩
  · rw [← shape] at literal ⊢
    rw [complete_for_good scanned literal, outcome]
  · rw [← shape] at range ⊢
    obtain ⟨e, settled, now, later, errors⟩ := error_for_good scanned fires range
    rw [later, outcome, conclude_error (ne_of_invalid scanned) now,
      conclude_error (ne_of_invalid later) errors]
    simp [settled]
  · rw [outcome]
    split
    · next value used scanned =>
        rw [← all] at number scanned
        exact absurd scanned (unsettled_ne_complete course.unsettled number)
    · rfl

def ReadsLiteral (text : List UInt8) (value : Json) (b : UInt8) (t : Transcript) : Prop :=
  (t.received = text ∧ t.outcome = .value value) ∨
  ∃ e, Json.parse (text ++ [b]) = .error e ∧ text ++ [b] <+: t.received ∧
    t.outcome = .failed (.malformed e)

theorem course_of_literal (course : Course limit [] s t chunks last ahead) (close : s.ending = .close)
    (blank : ∀ c ∈ blanks, isBlank c) (literal : Word word value)
    (bytes : (sent s).take limit = blanks ++ word ++ b :: rest) (stuck : mayFollow b = false) :
    ReadsLiteral (blanks ++ word) value b t := by
  have within := bytes ▸ course.within
  rcases course.closed_cases close with
    ⟨found, used, scanned, outcome⟩ | ⟨scanned, -, outcome⟩ | ⟨all, -⟩
  · rcases literal_cases blank literal within with going | whole | ⟨more, beyond⟩
    · cases going.symm.trans scanned
    · rw [whole, ← List.append_nil (_ ++ _), scan_literal blank literal] at scanned
      cases scanned
      exact .inl ⟨whole, outcome⟩
    · rw [beyond, scan_literal blank literal] at scanned
      simp [stuck] at scanned
  · rcases literal_cases blank literal within with going | whole | ⟨more, beyond⟩
    · cases going.symm.trans scanned
    · rw [whole, ← List.append_nil (_ ++ _), scan_literal blank literal] at scanned
      cases scanned
    · obtain ⟨e, settled, errors⟩ := trailing_for_good (blanks ++ word) (solid_of_not_mayFollow stuck)
        fun rest => read_literal blank literal (b :: rest)
      refine .inr ⟨e, errors [], ⟨more, by simp [beyond]⟩, ?_⟩
      rw [outcome, conclude_error (ne_of_invalid scanned) (beyond ▸ errors more)]
      simp [settled, Outcome.ofResult]
  · obtain ⟨part, last, r, rfl, goes, step⟩ := literal_ends blank literal
    exact absurd (all.trans bytes) (by simpa using unsettled_of_done course.unsettled goes step)

/-- Two readings of the same bytes have the same outcome, except for a literal that runs on, which may
be read in two ways, and for numbers that turn out too large too early or run into another value. -/
theorem same_reply (limit : Nat) (s s' : Stream) {size size' : Nat}
    (positive : 0 < size) (positive' : 0 < size') (nonempty : [] ∉ s.chunks) (nonempty' : [] ∉ s'.chunks)
    (close : s.ending = .close) (close' : s'.ending = .close) (same : sent s = sent s') :
    (∀ blanks word value b rest, (∀ c ∈ blanks, isBlank c) → Word word value → mayFollow b = false →
      (sent s).take limit = blanks ++ word ++ b :: rest →
        ReadsLiteral (blanks ++ word) value b (readReply size limit s) ∧
        ReadsLiteral (blanks ++ word) value b (readReply size' limit s')) ∧
    (¬ LiteralRunsOn ((sent s).take limit) → ¬ RangeTurns ((sent s).take limit) →
      ¬ NumberRunsInto ((sent s).take limit) →
        (readReply size limit s).outcome = (readReply size' limit s').outcome) := by
  obtain ⟨chunks, last, ahead, course⟩ := readReply_course limit positive nonempty
  obtain ⟨chunks', last', ahead', course'⟩ := readReply_course limit positive' nonempty'
  constructor
  · intro blanks word value b rest blank literal stuck bytes
    exact ⟨course_of_literal course close blank literal bytes stuck,
      course_of_literal course' close' blank literal (same ▸ bytes) stuck⟩
  · intro literal range number
    rw [course_at_once course close literal range number, same]
    rw [same] at literal range number
    exact (course_at_once course' close' literal range number).symm

theorem same_reply_of_empty_array :
    (readReply 1 8 ⟨[[openBracket], [closeBracket]], .close⟩).outcome =
      (readReply 2 8 ⟨[[openBracket, closeBracket]], .close⟩).outcome := by
  have replies := (same_reply 8 ⟨[[openBracket], [closeBracket]], .close⟩
    ⟨[[openBracket, closeBracket]], .close⟩ Nat.one_pos Nat.two_pos (by decide) (by decide) rfl rfl rfl).2
  refine replies ?_ ?_ ?_
  · rintro ⟨blanks, word, value, b, rest, shape, -, literal, -⟩
    have length := congrArg List.length shape
    cases literal <;> simp [sent] at length <;> omega
  · rintro ⟨_ | ⟨c, _ | ⟨d, text⟩⟩, b, rest, shape, fires, -⟩
    · cases fires
    · cases shape
      cases fires
    · simp [sent] at shape
  · rintro ⟨_ | ⟨c, _ | ⟨d, text⟩⟩, value, b, rest, shape, denotes, -⟩
    · cases denotes.1
    · cases shape
      cases denotes.1
    · simp [sent] at shape

theorem split_literal_reply :
    sent ⟨["null".toList.map byte, [byte 'x']], .close⟩ =
      sent ⟨["nullx".toList.map byte], .close⟩ ∧
    (readReply 8 8 ⟨["null".toList.map byte, [byte 'x']], .close⟩).outcome ≠
      (readReply 8 8 ⟨["nullx".toList.map byte], .close⟩).outcome := by
  have whole : (readReply 8 8 ⟨["null".toList.map byte, [byte 'x']], .close⟩).outcome =
      .value .null := by
    rw [readReply, Progress.readReply_eq]
    rfl
  have refused : ∃ e, (readReply 8 8 ⟨["nullx".toList.map byte], .close⟩).outcome =
      .failed (.malformed e) := by
    rw [readReply, Progress.readReply_eq]
    exact ⟨_, rfl⟩
  obtain ⟨e, refused⟩ := refused
  refine ⟨rfl, ?_⟩
  rw [whole, refused]
  simp

end SocketRpc.Proofs.Framing
