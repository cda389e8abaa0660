import SocketRpc.Proofs.Framing.Run

/-!
# Values are read whole

A reply is the value of a text at the beginning of the stream. If it is a number, the text is all of
it.

* `Stands` is a value on the first bytes of an input. A number also ends there.
* `stands_of_scan` and `stands_of_conclude`: both ways to a value find one that stands.
* `whole_reply`: so does every reply, however it came in and whatever the stream does after it.
* `reading_parses`: a reply is the value of a text, even if an empty chunk ends the stream early.
-/

namespace SocketRpc.Proofs.Framing
open SocketRpc.Json SocketRpc.Framing SocketRpc.Proofs.Json Ascii

variable {bufferSize limit used n m : Nat} {s : Stream} {t : Transcript} {b : UInt8}
variable {bytes ahead : List UInt8} {chunks last : List (List UInt8)} {value other : Json} {closed : Prop}

/-- A value on the first `n` bytes of an input. A number ends there, because of the byte after it or
because the input is closed. -/
structure Stands (bytes : List UInt8) (closed : Prop) (n : Nat) (value : Json) : Prop where
  within : n ≤ bytes.length
  denotes : Denotes (bytes.take n) value
  ends : value.isNumber → (n = bytes.length ∧ closed) ∨ ∃ b, bytes[n]? = some b ∧ mayFollow b

theorem stands_of_scan (h : scan bytes = .complete value used) : Stands bytes closed used value := by
  obtain ⟨within, denotes, follows⟩ := denotes_of_scan h
  exact ⟨within, denotes, fun number => .inr (follows number)⟩

theorem conclude_ok {closed : Bool} (h : conclude limit bytes closed = .ok value) :
    Json.parse bytes = .ok value ∧ (closed = false → scan bytes ≠ .incomplete) := by
  cases bytes with
  | nil => cases h
  | cons b bytes =>
      cases parse : Json.parse (b :: bytes) with
      | error e => rw [conclude_error (by simp) parse] at h; cases h
      | ok found =>
          simp only [conclude, parse] at h
          split at h
          · next isClosed => cases h; exact ⟨rfl, by simp [isClosed]⟩
          · split at h
            · cases h
            · next settled => cases h; exact ⟨rfl, fun _ => settled⟩

theorem stands_of_conclude {closed : Bool} (h : conclude limit bytes closed = .ok value) :
    ∃ n, Stands bytes (closed = true) n value := by
  obtain ⟨parse, settled⟩ := conclude_ok h
  obtain ⟨text, rest, rfl, ended, blank⟩ := ended_of_parse parse
  refine ⟨text.length, by simp, by simpa using denotes_of_ended ended, fun number => ?_⟩
  cases rest with
  | cons b rest => exact .inr ⟨b, by simp, by simp [mayFollow, blank b]⟩
  | nil =>
      rw [List.append_nil] at settled ⊢
      refine .inl ⟨rfl, Bool.of_not_eq_false fun going => settled going ?_⟩
      rcases ended with ⟨front, b, r, tree, rfl, goes, step, rfl⟩ | ⟨r, tree, goes, ends, rfl⟩
      · rw [isNumber_canonical, (scan_done goes step).1] at number
        cases number
      · rw [scan_open goes, ends]

theorem numeric_not_follows (h : isNumeric b) : mayFollow b = false := by
  have ne {c : UInt8} (hc : isNumeric c = false) : (b == c) = false := by simpa using numeric_ne h hc
  simp only [mayFollow, numeric_solid h, isOpening_numeric h, Bool.false_or]
  rw [ne (by decide), ne (by decide), ne (by decide), ne (by decide)]
  rfl

theorem not_denotes_blanks (blank : ∀ c ∈ bytes, isBlank c) : ¬ Denotes bytes value := by
  intro denotes
  have parse := parse_open (advance_blanks Json.maxDepth blank) rfl
  cases parse.symm.trans denotes.1

theorem stands_maximal (stands : Stands bytes closed n value) (number : value.isNumber)
    (longer : Denotes (bytes.take m) other) (number' : other.isNumber) (within : m ≤ bytes.length) :
    m ≤ n := by
  rcases stands.ends number with ⟨all, -⟩ | ⟨b, next, follows⟩
  · exact all ▸ within
  · refine Nat.le_of_not_lt fun beyond => ?_
    obtain ⟨k, rfl⟩ : ∃ k, m = n + (k + 1) := ⟨m - n - 1, by omega⟩
    obtain ⟨inside, rfl⟩ := List.getElem?_eq_some_iff.1 next
    have shape := List.take_add (l := bytes) (i := n) (j := k + 1)
    rw [List.drop_eq_getElem_cons inside, List.take_succ_cons] at shape
    rcases ended_of_denotes longer with ⟨front, b, r, tree, -, goes, step, rfl⟩ | ⟨r, tree, goes, ends, -⟩
    · rw [isNumber_canonical, (scan_done goes step).1] at number'
      cases number'
    · -- The byte after the number would be one of the longer number's.
      obtain ⟨blanks, first, more, begins, blank, numeric⟩ := solid_of_advance goes ends
      rcases append_split (begins.symm.trans shape) with ⟨mid, -, whole⟩ | ⟨mid, all, -⟩
      · have last : isNumeric bytes[n] := numeric _ (by rw [whole]; simp)
        rw [numeric_not_follows last] at follows
        cases follows
      · exact not_denotes_blanks (fun c hc => blank c (by rw [all]; simp [hc])) stands.denotes

theorem stands_in_stream {whole : List UInt8} {ended : Prop} (stands : Stands bytes ended n value)
    (going : ¬ ended) (within : bytes <+: whole) :
    Stands whole closed n value ∧ (value.isNumber → n < bytes.length) := by
  obtain ⟨inside, denotes, ends⟩ := stands
  obtain ⟨beyond, rfl⟩ := within
  have next (number : value.isNumber) : ∃ b, bytes[n]? = some b ∧ mayFollow b :=
    (ends number).resolve_left fun last => going last.2
  have short (number : value.isNumber) : n < bytes.length := by
    obtain ⟨b, here, -⟩ := next number
    exact (List.getElem?_eq_some_iff.1 here).1
  refine ⟨⟨by simp; omega, by rwa [List.take_append_of_le_length inside], fun number => ?_⟩, short⟩
  obtain ⟨b, here, follows⟩ := next number
  exact .inr ⟨b, by rw [List.getElem?_append_left (short number), here], follows⟩

theorem ofResult_value {result : Except ReplyError Json} (h : Outcome.ofResult result = .value value) :
    result = .ok value := by
  cases result with
  | ok found => cases h; rfl
  | error e => cases h

theorem complete_of_verdict {p : Progress} {mayEnd : Bool} (h : p.verdict mayEnd = .complete value used) :
    scan p.received.toList = .complete value used := by
  cases mayEnd with
  | false => cases h
  | true => exact h

theorem reading_parses {p : Progress} (reading : Reading bufferSize limit p s t)
    (h : t.outcome = .value value) : ∃ text, Json.parse text = .ok value := by
  have concluded {received : List UInt8} {closed : Bool}
      (h : Outcome.ofResult (conclude limit received closed) = .value value) :
      ∃ text, Json.parse text = .ok value := ⟨received, (conclude_ok (ofResult_value h)).1⟩
  -- A `Course` needs a stream without empty chunks, so the calls are followed here.
  induction reading with
  | full | closed | invalid => exact concluded h
  | waiting | failed => cases h
  | complete _ _ _ verdict =>
      cases h
      obtain ⟨-, denotes, -⟩ := denotes_of_scan (complete_of_verdict verdict)
      exact ⟨_, denotes.1⟩
  | more _ _ _ _ _ ih => exact ih h

theorem course_stands (course : Course limit [] s t chunks last ahead) (h : t.outcome = .value value) :
    ∃ n, Stands (sent s) (s.ending = .close) n value ∧ n ≤ limit ∧ (value.isNumber → n < limit) := by
  have within := course.within
  obtain ⟨stream, -, -, received, ends⟩ := course
  have sizes := (List.prefix_take_iff.1 within).2
  have found {ended : Prop} {n : Nat} (stands : Stands t.received ended n value) (going : ¬ ended) :
      ∃ n, Stands (sent s) (s.ending = .close) n value ∧ n ≤ limit ∧ (value.isNumber → n < limit) := by
    obtain ⟨whole, short⟩ := stands_in_stream stands going (within.trans (List.take_prefix _ _))
    exact ⟨n, whole, Nat.le_trans stands.within sizes, fun number => Nat.lt_of_lt_of_le (short number) sizes⟩
  rw [h] at ends
  rw [List.nil_append] at ends received
  generalize outcome : Outcome.value value = answer at ends
  cases ends with
  | @complete chunk rest used value' room ne verdict =>
      cases outcome
      rw [List.flatten_append, List.flatten_singleton] at received
      have scanned := (scan_of_verdictAfter verdict (by simp)).1
      exact found (stands_of_scan (received ▸ scanned)) not_false
  | @invalid chunk rest room ne verdict =>
      rw [List.flatten_append, List.flatten_singleton] at received
      obtain ⟨n, stands⟩ := stands_of_conclude (ofResult_value outcome.symm)
      exact found (received ▸ stands) (by simp)
  | full full =>
      rw [List.append_nil] at received
      obtain ⟨n, stands⟩ := stands_of_conclude (ofResult_value outcome.symm)
      exact found (received ▸ stands) (by simp)
  | closed room close =>
      rw [List.append_nil] at stream
      obtain ⟨n, stands⟩ := stands_of_conclude (ofResult_value outcome.symm)
      rw [← stream] at stands room
      have short := Nat.lt_of_le_of_lt stands.within room
      refine ⟨n, ⟨stands.within, stands.denotes, fun number => ?_⟩, Nat.le_of_lt short, fun _ => short⟩
      exact (stands.ends number).imp (fun all => ⟨all.1, close⟩) id
  | waiting room wait => cases outcome
  | failed room fail => cases outcome

/-- A value read from a stream is that of a text at its beginning, within the limit. If it is a number,
the text is not the beginning of a longer number, and what shows this comes within the limit, too. -/
theorem whole_reply (positive : 0 < bufferSize) (nonempty : [] ∉ s.chunks)
    (h : (readReply bufferSize limit s).outcome = .value value) :
    ∃ n, n ≤ limit ∧ n ≤ (sent s).length ∧ Denotes ((sent s).take n) value ∧
      (value.isNumber → n < limit ∧
        ((n = (sent s).length ∧ s.ending = .close) ∨ ∃ b, (sent s)[n]? = some b ∧ mayFollow b) ∧
        ∀ m number, m ≤ (sent s).length → Denotes ((sent s).take m) number → number.isNumber → m ≤ n) := by
  obtain ⟨chunks, last, ahead, course⟩ := readReply_course limit positive nonempty
  obtain ⟨n, stands, allowed, short⟩ := course_stands course h
  refine ⟨n, allowed, stands.within, stands.denotes, fun number => ⟨short number, stands.ends number, ?_⟩⟩
  exact fun m other within longer number' => stands_maximal stands number longer number' within

theorem whole_reply_of_twelve : ∃ n, n < 8 ∧ Denotes ([0x31, 0x32, space].take n) (Json.ofNat 12) := by
  have reply : (readReply 4 8 ⟨[[0x31, 0x32, space]], .wait⟩).outcome = .value (Json.ofNat 12) := by
    rw [readReply, Progress.readReply_eq]
    rfl
  obtain ⟨n, -, -, denotes, number⟩ := whole_reply (Nat.succ_pos 3) (by decide) reply
  exact ⟨n, (number rfl).1, denotes⟩

end SocketRpc.Proofs.Framing
