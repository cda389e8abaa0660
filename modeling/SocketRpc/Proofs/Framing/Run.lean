import SocketRpc.Framing.Reply
import SocketRpc.Proofs.Framing.Gate

/-!
# How the reading of a reply goes

`readReply` takes in one chunk after another for as long as the verdict is that more bytes are needed,
and then ends in one of six ways.

* `Unsettled` are the chunks after each of which more bytes are needed, and `Ends` is what happens
  after them.
* `readReply_course`: every reading of a reply is a `Course` of such chunks with an end, if the stream has
  no empty chunk.
* `Settles`: a value is found once so many bytes have come in, and not before. A reading ends with the
  chunk that brings the last of them (`course_settles`).
* `unsettled_quiet`: where some byte would have settled the reply, no byte from there on has asked for
  an inspection.
* `readReply_of_chunk` and `outcome_of_rest` follow a reading over chunks that are given.
-/

namespace SocketRpc.Proofs.Framing
open SocketRpc.Json SocketRpc.Framing SocketRpc.Proofs.Json

variable {bufferSize limit want used n : Nat} {s left : Stream} {t : Transcript} {b : UInt8}
variable {held mid rest ahead chunk bytes : List UInt8} {chunks last more : List (List UInt8)} {value : Json}
variable {p : Progress} {ending : Ending}

def Receipt.given : Receipt → List UInt8
  | .bytes received => received
  | .waiting | .failed _ => []

def receipts : List Nat → Stream → List (List UInt8)
  | [], _ => []
  | want :: wants, s => Receipt.given (s.receive want).1 :: receipts wants (s.receive want).2

def sent (s : Stream) : List UInt8 := s.chunks.flatten

theorem receive_bytes {chunk : List UInt8} (h : s.receive want = (.bytes (b :: chunk), left)) :
    (b :: chunk).length ≤ want ∧ sent s = b :: chunk ++ sent left ∧ left.ending = s.ending := by
  obtain ⟨chunks, ending⟩ := s
  cases chunks with
  | nil => cases ending <;> simp [Stream.receive] at h
  | cons first others =>
      simp only [Stream.receive, Prod.mk.injEq, Receipt.bytes.injEq] at h
      obtain ⟨taken, rfl⟩ := h
      have whole := List.take_append_drop want first
      rw [← taken]
      refine ⟨List.length_take_le want first, ?_, rfl⟩
      cases rest : first.drop want <;> rw [rest] at whole
      · simp_all [sent]
      · simp only [sent, List.flatten_cons, List.isEmpty_cons, Bool.false_eq_true, if_false]
        rw [← List.append_assoc, whole]

theorem receive_nonempty (positive : 0 < want) (h : [] ∉ s.chunks) :
    [] ∉ (s.receive want).2.chunks ∧
      ((s.receive want).1 = .bytes [] → sent s = [] ∧ s.ending = .close) := by
  obtain ⟨chunks, ending⟩ := s
  cases chunks with
  | nil => cases ending <;> simp [Stream.receive, sent]
  | cons first others =>
      obtain ⟨ne, none⟩ : first ≠ [] ∧ [] ∉ others := by simpa [eq_comm] using h
      refine ⟨?_, fun empty => ?_⟩
      · simp only [Stream.receive]
        cases first.drop want with
        | nil => exact none
        | cons b more => simpa using none
      · simp only [Stream.receive, Receipt.bytes.injEq, List.take_eq_nil_iff] at empty
        simp [ne, Nat.ne_of_gt positive] at empty

theorem receive_ending {receipt : Receipt} (h : s.receive want = (receipt, left)) : match receipt with
    | .bytes _ => True
    | .waiting => sent s = [] ∧ s.ending = .wait
    | .failed error => sent s = [] ∧ s.ending = .fail error := by
  obtain ⟨chunks, ending⟩ := s
  cases chunks with
  | nil => cases ending <;> cases h <;> simp [sent]
  | cons first others => cases h; trivial

def Unsettled (held : List UInt8) : List (List UInt8) → Prop
  | [] => True
  | chunk :: chunks => verdictAfter held chunk = .incomplete ∧ Unsettled (held ++ chunk) chunks

/-- What ends a reading on the bytes held: the bytes of the stream that are still ahead then, what the
last call gives, if there is one more, and the outcome. -/
inductive Ends (limit : Nat) (ending : Ending) (held : List UInt8) :
    List UInt8 → List (List UInt8) → Outcome → Prop
  | complete {chunk rest : List UInt8} {used : Nat} {value : Json}
      (room : (held ++ chunk).length ≤ limit) (ne : chunk ≠ []) (verdict : verdictAfter held chunk = .complete value used) :
      Ends limit ending held (chunk ++ rest) [chunk] (.value value)
  | invalid {chunk rest : List UInt8} (room : (held ++ chunk).length ≤ limit) (ne : chunk ≠ [])
      (verdict : verdictAfter held chunk = .invalid) :
      Ends limit ending held (chunk ++ rest) [chunk]
        (.ofResult (conclude limit (held ++ chunk) false))
  | full {rest : List UInt8} (full : held.length = limit) :
      Ends limit ending held rest [] (.ofResult (conclude limit held false))
  | closed (room : held.length < limit) (close : ending = .close) :
      Ends limit ending held [] [[]] (.ofResult (conclude limit held true))
  | waiting (room : held.length < limit) (wait : ending = .wait) :
      Ends limit ending held [] [[]] .waiting
  | failed {error : IoError} (room : held.length < limit) (fail : ending = .fail error) :
      Ends limit ending held [] [[]] (.failed (.transport error))

/-- A reading from a stream on the bytes held, which goes over these chunks without being settled. -/
structure Course (limit : Nat) (held : List UInt8) (s : Stream) (t : Transcript)
    (chunks last : List (List UInt8)) (ahead : List UInt8) : Prop where
  stream : sent s = chunks.flatten ++ ahead
  unsettled : Unsettled held chunks
  given : receipts t.wants s = chunks ++ last
  received : t.received = held ++ (chunks ++ last).flatten
  ends : Ends limit s.ending (held ++ chunks.flatten) ahead last t.outcome

theorem Course.of_call {receipt : Receipt} (receive : s.receive want = (receipt, left))
    (wants : t.wants = [want]) (received : t.received = held ++ Receipt.given receipt)
    (ends : Ends limit s.ending held (sent s) [Receipt.given receipt] t.outcome) :
    Course limit held s t [] [Receipt.given receipt] (sent s) where
  stream := rfl
  unsettled := trivial
  given := by simp [wants, receipts, receive]
  received := by simpa using received
  ends := by simpa using ends

theorem Course.within (course : Course limit [] s t chunks last ahead) :
    t.received <+: (sent s).take limit := by
  obtain ⟨stream, -, -, received, ends⟩ := course
  rw [received, List.prefix_take_iff, stream]
  generalize t.outcome = outcome at ends
  cases ends with
  | complete room | invalid room => exact ⟨by simp, by simpa using room⟩
  | full full => exact ⟨by simp, by simpa using Nat.le_of_eq full⟩
  | closed room | waiting room | failed room => exact ⟨by simp, by simpa using Nat.le_of_lt room⟩

theorem Course.closed_cases (course : Course limit [] s t chunks last ahead) (close : s.ending = .close) :
    (∃ value used, scan t.received = .complete value used ∧ t.outcome = .value value) ∨
    (scan t.received = .invalid ∧ (Boundary.start.feed t.received).2 = true ∧
      t.outcome = .ofResult (conclude limit t.received false)) ∨
    chunks.flatten = (sent s).take limit ∧ t.outcome =
      .ofResult (conclude limit ((sent s).take limit) (decide ((sent s).length < limit))) := by
  obtain ⟨stream, -, -, received, ends⟩ := course
  rw [List.nil_append] at ends received
  generalize t.outcome = outcome at ends
  cases ends with
  | @complete chunk rest used value room ne verdict =>
      rw [List.flatten_append, List.flatten_singleton] at received
      exact .inl ⟨value, used, received ▸ (scan_of_verdictAfter verdict (by simp)).1, rfl⟩
  | @invalid chunk rest room ne verdict =>
      rw [List.flatten_append, List.flatten_singleton] at received
      obtain ⟨scanned, fires⟩ := scan_of_verdictAfter verdict (by simp)
      exact .inr (.inl ⟨received ▸ scanned, received ▸ fires, by rw [received]⟩)
  | full full =>
      have all : (sent s).take limit = chunks.flatten := by simp [stream, ← full]
      have open_ : ¬ (sent s).length < limit := by
        rw [stream, List.length_append, full]
        omega
      exact .inr (.inr ⟨all.symm, by simp [all, open_]⟩)
  | closed room _ =>
      rw [List.append_nil] at stream
      have all : (sent s).take limit = chunks.flatten := by
        rw [stream, List.take_of_length_le (Nat.le_of_lt room)]
      exact .inr (.inr ⟨all.symm, by rw [all, stream, decide_eq_true room]⟩)
  | waiting _ wait => cases close.symm.trans wait
  | failed _ fail => cases close.symm.trans fail

/-- The first `n` bytes settle the value: it is found when the last of them comes in, and not before. -/
structure Settles (bytes : List UInt8) (n : Nat) (value : Json) : Prop where
  before : ∀ held chunk, held ++ chunk <+: bytes → (held ++ chunk).length < n →
    verdictAfter held chunk = .incomplete
  crossing : ∀ held chunk, held ++ chunk <+: bytes → held.length < n → n ≤ (held ++ chunk).length →
    ∃ used, verdictAfter held chunk = .complete value used

theorem unsettled_before (settles : Settles bytes n value) (unsettled : Unsettled held chunks)
    (within : held ++ chunks.flatten <+: bytes) (short : held.length < n) :
    (held ++ chunks.flatten).length < n := by
  induction chunks generalizing held with
  | nil => simpa using short
  | cons chunk chunks ih =>
      obtain ⟨verdict, unsettled⟩ := unsettled
      rw [List.flatten_cons, ← List.append_assoc] at within ⊢
      apply ih unsettled within
      apply Nat.lt_of_not_le
      intro long
      have first := (List.prefix_append (held ++ chunk) chunks.flatten).trans within
      obtain ⟨used, found⟩ := settles.crossing held chunk first short long
      cases verdict.symm.trans found

theorem course_settles (course : Course limit [] s t chunks last ahead) (settles : Settles (sent s) n value)
    (positive : 0 < n) (allowed : n ≤ limit) (given : n ≤ (sent s).length) :
    t.outcome = .value value ∧ ∃ chunk, last = [chunk] ∧ chunks.flatten.length < n ∧
      n ≤ (chunks ++ [chunk]).flatten.length := by
  have within := course.within.trans (List.take_prefix limit (sent s))
  obtain ⟨stream, unsettled, -, received, ends⟩ := course
  rw [List.nil_append] at ends received
  have short : chunks.flatten.length < n := unsettled_before settles unsettled ⟨ahead, stream.symm⟩ positive
  generalize t.outcome = outcome at ends
  cases ends with
  | @complete chunk rest used found room ne verdict =>
      rw [received, List.flatten_append, List.flatten_singleton] at within
      by_cases long : n ≤ (chunks.flatten ++ chunk).length
      · obtain ⟨used', same⟩ := settles.crossing _ chunk within short long
        cases verdict.symm.trans same
        exact ⟨rfl, chunk, rfl, short, by simpa using long⟩
      · cases verdict.symm.trans (settles.before _ chunk within (Nat.lt_of_not_le long))
  | @invalid chunk rest room ne verdict =>
      rw [received, List.flatten_append, List.flatten_singleton] at within
      by_cases long : n ≤ (chunks.flatten ++ chunk).length
      · obtain ⟨used', same⟩ := settles.crossing _ chunk within short long
        cases verdict.symm.trans same
      · cases verdict.symm.trans (settles.before _ chunk within (Nat.lt_of_not_le long))
  | full full => omega
  | closed room close | waiting room wait | failed room fail =>
      rw [stream, List.append_nil] at given
      omega

theorem Course.after {chunk : List UInt8} (receive : s.receive want = (.bytes (b :: chunk), left))
    (verdict : verdictAfter held (b :: chunk) = .incomplete)
    (course : Course limit (held ++ b :: chunk) left t chunks last ahead) :
    Course limit held s (t.after want) ((b :: chunk) :: chunks) last ahead where
  stream := by simp [(receive_bytes receive).2.1, course.stream]
  unsettled := ⟨verdict, course.unsettled⟩
  given := by simp [Transcript.after, receipts, receive, Receipt.given, course.given]
  received := by simpa [Transcript.after] using course.received
  ends := by simpa [Transcript.after, (receive_bytes receive).2.2] using course.ends

structure Kept (limit : Nat) (p : Progress) : Prop where
  boundary : p.boundary = (Boundary.start.feed p.received.toList).1
  room : p.received.toList.length ≤ limit

theorem asked_eq (asked : p.want? bufferSize limit = some want) :
    p.received.size < limit ∧ want = min bufferSize (limit - p.received.size) := by
  have within := Progress.within_of_want? asked
  simp only [Progress.want?, if_pos within, Option.some.injEq] at asked
  exact ⟨within, asked.symm⟩

theorem want_positive (positive : 0 < bufferSize) (asked : p.want? bufferSize limit = some want) :
    0 < want := by
  obtain ⟨within, rfl⟩ := asked_eq asked
  omega

theorem kept_absorb {p next : Progress} {chunk : List UInt8} {mayEnd : Bool} (kept : Kept limit p)
    (short : chunk.length ≤ limit - p.received.size)
    (absorb : p.absorb chunk = (next, mayEnd)) :
    Kept limit next ∧ next.received.toList = p.received.toList ++ chunk ∧
      next.verdict mayEnd = verdictAfter p.received.toList chunk := by
  have bytes : next.received.toList = p.received.toList ++ chunk := by
    rw [← p.toList_received_absorb chunk, absorb]
  have follows : next.boundary = (p.boundary.feed chunk).1 ∧ mayEnd = (p.boundary.feed chunk).2 := by
    simp only [Progress.absorb, Prod.mk.injEq] at absorb
    exact ⟨by rw [← absorb.1], absorb.2.symm⟩
  refine ⟨⟨?_, ?_⟩, bytes, ?_⟩
  · rw [follows.1, kept.boundary, bytes, feed_append]
  · have room := kept.room
    simp only [bytes, List.length_append, Array.length_toList] at room ⊢
    omega
  · simp only [Progress.verdict, verdictAfter, bytes, follows.2, kept.boundary]

theorem kept_call {next : Progress} {chunk : List UInt8} {mayEnd : Bool} (kept : Kept limit p)
    (asked : p.want? bufferSize limit = some want) (receive : s.receive want = (.bytes (b :: chunk), left))
    (absorb : p.absorb (b :: chunk) = (next, mayEnd)) :
    Kept limit next ∧ next.received.toList = p.received.toList ++ b :: chunk ∧
      next.verdict mayEnd = verdictAfter p.received.toList (b :: chunk) := by
  obtain ⟨-, rfl⟩ := asked_eq asked
  exact kept_absorb kept (Nat.le_trans (receive_bytes receive).1 (Nat.min_le_right _ _)) absorb

/-- How a reading goes, with a case for each way a call can go. Only the last one reads on. -/
inductive Reading (bufferSize limit : Nat) : Progress → Stream → Transcript → Prop
  | full {p : Progress} {s : Stream} (asked : p.want? bufferSize limit = none) :
      Reading bufferSize limit p s
        ⟨.ofResult (conclude limit p.received.toList false), p.received.toList, [], []⟩
  | waiting {p : Progress} {s left : Stream} {want : Nat} (asked : p.want? bufferSize limit = some want)
      (receive : s.receive want = (.waiting, left)) :
      Reading bufferSize limit p s ⟨.waiting, p.received.toList, [want], []⟩
  | failed {p : Progress} {s left : Stream} {want : Nat} {error : IoError}
      (asked : p.want? bufferSize limit = some want) (receive : s.receive want = (.failed error, left)) :
      Reading bufferSize limit p s ⟨.failed (.transport error), p.received.toList, [want], []⟩
  | closed {p : Progress} {s left : Stream} {want : Nat} (asked : p.want? bufferSize limit = some want)
      (receive : s.receive want = (.bytes [], left)) :
      Reading bufferSize limit p s ⟨.ofResult (conclude limit p.received.toList true), p.received.toList,
        [want], [.closedAfter p.received.toList.length]⟩
  | complete {p next : Progress} {s left : Stream} {want used : Nat} {b : UInt8} {chunk : List UInt8}
      {mayEnd : Bool} {value : Json} (asked : p.want? bufferSize limit = some want)
      (receive : s.receive want = (.bytes (b :: chunk), left)) (absorb : p.absorb (b :: chunk) = (next, mayEnd))
      (verdict : next.verdict mayEnd = .complete value used) :
      Reading bufferSize limit p s
        ⟨.value value, next.received.toList, [want], remark (next.received.toList.drop used)⟩
  | invalid {p next : Progress} {s left : Stream} {want : Nat} {b : UInt8} {chunk : List UInt8}
      {mayEnd : Bool} (asked : p.want? bufferSize limit = some want)
      (receive : s.receive want = (.bytes (b :: chunk), left)) (absorb : p.absorb (b :: chunk) = (next, mayEnd))
      (verdict : next.verdict mayEnd = .invalid) :
      Reading bufferSize limit p s
        ⟨.ofResult (conclude limit next.received.toList false), next.received.toList, [want], []⟩
  | more {p next : Progress} {s left : Stream} {want : Nat} {b : UInt8} {chunk : List UInt8}
      {mayEnd : Bool} {t : Transcript} (asked : p.want? bufferSize limit = some want)
      (receive : s.receive want = (.bytes (b :: chunk), left)) (absorb : p.absorb (b :: chunk) = (next, mayEnd))
      (verdict : next.verdict mayEnd = .incomplete) (later : Reading bufferSize limit next left t) :
      Reading bufferSize limit p s (t.after want)

/-- A call that ends a reading ends it in one of five ways. -/
theorem reading_of_settled {receipt : Receipt} (asked : p.want? bufferSize limit = some want)
    (receive : s.receive want = (receipt, left)) (settled : p.call limit want receipt = .settled t) :
    Reading bufferSize limit p s t := by
  rcases receipt with (_ | ⟨b, chunk⟩) | _ | error
  case bytes.cons =>
    simp only [Progress.call] at settled
    split at settled
    · next verdict =>
        cases settled
        exact .complete asked receive rfl verdict
    · next verdict =>
        cases settled
        exact .invalid asked receive rfl verdict
    · cases settled
  all_goals cases settled
  · exact .closed asked receive
  · exact .waiting asked receive
  · exact .failed asked receive

theorem reading_readReply (bufferSize limit : Nat) (p : Progress) (s : Stream) :
    Reading bufferSize limit p s (p.readReply bufferSize limit s) := by
  rw [Progress.readReply_eq]
  split
  · next none => exact .full none
  · next want asked =>
      split
      · next settled => exact reading_of_settled asked rfl settled
      · next next goOn =>
          obtain ⟨b, chunk, mayEnd, receipt, absorb, verdict⟩ := Progress.call_goOn goOn
          have within := Progress.within_of_want? asked
          have grown := Progress.call_grows goOn
          exact .more asked (Prod.ext receipt rfl) absorb verdict (reading_readReply bufferSize limit next _)
termination_by limit - p.received.size

theorem course_of_reading (positive : 0 < bufferSize) (reading : Reading bufferSize limit p s t)
    (kept : Kept limit p) (nonempty : [] ∉ s.chunks) : ∃ chunks last ahead,
      Course limit p.received.toList s t chunks last ahead := by
  induction reading with
  | @full p s asked =>
      refine ⟨[], [], sent s, rfl, trivial, rfl, (List.append_nil _).symm, ?_⟩
      rw [List.flatten_nil, List.append_nil]
      refine .full (Nat.le_antisymm kept.room (Nat.le_of_not_lt fun within => ?_))
      simp [Progress.want?, Array.length_toList ▸ within] at asked
  | waiting asked receive =>
      obtain ⟨dry, wait⟩ := receive_ending receive
      refine ⟨[], _, _, .of_call receive rfl (List.append_nil _).symm ?_⟩
      rw [dry]
      exact .waiting (Array.length_toList ▸ Progress.within_of_want? asked) wait
  | failed asked receive =>
      obtain ⟨dry, fail⟩ := receive_ending receive
      refine ⟨[], _, _, .of_call receive rfl (List.append_nil _).symm ?_⟩
      rw [dry]
      exact .failed (Array.length_toList ▸ Progress.within_of_want? asked) fail
  | closed asked receive =>
      have wants := want_positive positive asked
      obtain ⟨dry, close⟩ := (receive_nonempty wants nonempty).2 (by rw [receive])
      refine ⟨[], _, _, .of_call receive rfl (List.append_nil _).symm ?_⟩
      rw [dry]
      exact .closed (Array.length_toList ▸ Progress.within_of_want? asked) close
  | complete asked receive absorb verdict =>
      obtain ⟨kept, bytes, same⟩ := kept_call kept asked receive absorb
      refine ⟨[], _, _, .of_call receive rfl bytes ?_⟩
      rw [(receive_bytes receive).2.1]
      exact .complete (bytes ▸ kept.room) (by simp) (same ▸ verdict)
  | @invalid p next s left want b chunk mayEnd asked receive absorb verdict =>
      obtain ⟨kept, bytes, same⟩ := kept_call kept asked receive absorb
      refine ⟨[], _, _, .of_call receive rfl bytes ?_⟩
      have ended : Ends limit s.ending p.received.toList (b :: chunk ++ sent left) [b :: chunk] _ :=
        .invalid (bytes ▸ kept.room) (List.cons_ne_nil b chunk) (same ▸ verdict)
      rwa [← (receive_bytes receive).2.1, ← bytes] at ended
  | @more p next s left want b chunk mayEnd t asked receive absorb verdict _ ih =>
      have wants := want_positive positive asked
      obtain ⟨kept, bytes, same⟩ := kept_call kept asked receive absorb
      have nonempty' : [] ∉ left.chunks := by simpa [receive] using (receive_nonempty wants nonempty).1
      obtain ⟨chunks, last, ahead, course⟩ := ih kept nonempty'
      exact ⟨_, last, ahead, .after receive (same ▸ verdict) (bytes ▸ course)⟩

theorem readReply_course (limit : Nat) (positive : 0 < bufferSize) (nonempty : [] ∉ s.chunks) :
    ∃ chunks last ahead, Course limit [] s (readReply bufferSize limit s) chunks last ahead :=
  course_of_reading positive (reading_readReply bufferSize limit .start s) ⟨rfl, Nat.zero_le _⟩ nonempty

theorem conclude_error {bytes : List UInt8} {closed : Bool} {e : JsonError} (ne : bytes ≠ [])
    (parse : Json.parse bytes = .error e) : conclude limit bytes closed = .error
      (if e.category = .truncated ∧ closed = false then .tooLarge limit else .malformed e) := by
  obtain ⟨b, bytes, rfl⟩ := List.exists_cons_of_ne_nil ne
  simp only [conclude, parse]
  cases closed with
  | true => simp
  | false =>
      simp only [Bool.false_eq_true, if_false, and_true]
      split
      · next open_ => rw [if_pos ((incomplete_iff parse).1 open_)]
      · next settled => rw [if_neg fun truncated => settled ((incomplete_iff parse).2 truncated)]

theorem conclude_malformed {bytes : List UInt8} {closed : Bool} {e : JsonError}
    (h : Outcome.ofResult (conclude limit bytes closed) = .failed (.malformed e)) :
    Json.parse bytes = .error e := by
  cases parse : Json.parse bytes with
  | error e' =>
      cases bytes with
      | nil => cases h
      | cons b bytes =>
          rw [conclude_error (by simp) parse] at h
          split at h <;> cases h
          rfl
  | ok value =>
      cases bytes with
      | nil => cases h
      | cons b bytes =>
          simp only [conclude, parse] at h
          split at h
          · cases h
          · split at h <;> cases h

theorem quiet_of_incomplete {chunk : List UInt8} (verdict : verdictAfter held chunk = .incomplete)
    (settles : scan (held ++ chunk) ≠ .incomplete) :
    ((Boundary.start.feed held).1.feed chunk).2 = false := by
  cases fires : ((Boundary.start.feed held).1.feed chunk).2 with
  | false => rfl
  | true => exact absurd (by simpa [verdictAfter, fires] using verdict) settles

theorem unsettled_silent (h : Unsettled held chunks)
    (settles : ∀ more, scan (held ++ more) ≠ .incomplete) :
    ((Boundary.start.feed held).1.feed chunks.flatten).2 = false := by
  induction chunks generalizing held with
  | nil => rfl
  | cons chunk chunks ih =>
      have later := ih h.2 fun more => by rw [List.append_assoc]; exact settles _
      rw [feed_append] at later
      rw [List.flatten_cons, feed_append, quiet_of_incomplete h.1 (settles chunk), later]
      rfl

theorem unsettled_quiet (h : Unsettled held chunks) (shape : chunks.flatten = mid ++ b :: rest)
    (settles : ∀ more, scan (held ++ mid ++ b :: more) ≠ .incomplete) :
    ∃ before within, mid = before ++ within ∧
      ((Boundary.start.feed (held ++ before)).1.feed (within ++ b :: rest)).2 = false := by
  induction chunks generalizing held mid with
  | nil => simp at shape
  | cons chunk chunks ih =>
      obtain ⟨verdict, h⟩ := h
      rw [List.flatten_cons] at shape
      rcases append_split shape with ⟨mid', rfl, later⟩ | ⟨more, rfl, rfl⟩
      · obtain ⟨before, within, rfl, quiet⟩ := ih h later (by simpa using settles)
        exact ⟨chunk ++ before, within, by simp, by simpa using quiet⟩
      · -- The byte is in this chunk, so neither this one nor any chunk after it was inspected.
        have now := quiet_of_incomplete verdict (by simpa using settles more)
        have later := unsettled_silent h fun next => by simpa using settles (more ++ next)
        refine ⟨[], mid, rfl, ?_⟩
        rw [feed_append] at later
        rw [List.append_nil, ← List.cons_append, ← List.append_assoc, feed_append, now, later]
        rfl

theorem unsettled_of_done {text : List UInt8} {r : Reader} (h : Unsettled [] chunks)
    (goes : Reaches text r) (step : r.step Json.maxDepth b = .done value) :
    chunks.flatten ≠ text ++ b :: rest := by
  intro shape
  obtain ⟨plain, -, blanks, first, begin, -, -, -, verdict⟩ := scan_done goes step
  obtain ⟨before, within, rfl, quiet⟩ :=
    unsettled_quiet h shape fun more => by simpa [verdict] using judge_settled plain
  have fires := fires_of_done goes step rest
  rw [List.nil_append] at quiet
  rw [quiet] at fires
  cases fires

theorem readReply_of_chunk (kept : Kept limit p) (ne : chunk ≠ []) (fits : chunk.length ≤ bufferSize)
    (room : p.received.size + chunk.length ≤ limit) :
    p.readReply bufferSize limit ⟨chunk :: more, ending⟩ =
      match verdictAfter p.received.toList chunk with
      | .complete value used =>
          ⟨.value value, p.received.toList ++ chunk, [min bufferSize (limit - p.received.size)],
            remark ((p.received.toList ++ chunk).drop used)⟩
      | .invalid =>
          ⟨.ofResult (conclude limit (p.received.toList ++ chunk) false), p.received.toList ++ chunk,
            [min bufferSize (limit - p.received.size)], []⟩
      | .incomplete => ((p.absorb chunk).1.readReply bufferSize limit ⟨more, ending⟩).after
          (min bufferSize (limit - p.received.size)) := by
  obtain ⟨c, chunk, rfl⟩ := List.exists_cons_of_ne_nil ne
  have asked : p.want? bufferSize limit = some (min bufferSize (limit - p.received.size)) := by
    rw [Progress.want?, if_pos]
    simp only [List.length_cons] at room
    omega
  have receive : (⟨(c :: chunk) :: more, ending⟩ : Stream).receive
      (min bufferSize (limit - p.received.size)) = (.bytes (c :: chunk), ⟨more, ending⟩) := by
    have all : (c :: chunk).length ≤ min bufferSize (limit - p.received.size) := by omega
    simp [Stream.receive, List.take_of_length_le all, List.drop_of_length_le all]
  obtain ⟨q, mayEnd, absorb⟩ : ∃ q mayEnd, p.absorb (c :: chunk) = (q, mayEnd) := ⟨_, _, rfl⟩
  obtain ⟨-, bytes, same⟩ := kept_absorb kept (by omega) absorb
  rw [Progress.readReply_eq, asked, ← same, ← bytes]
  simp only [receive, Progress.call, absorb]
  cases q.verdict mayEnd <;> rfl

theorem outcome_of_chunk (kept : Kept limit p) (ne : chunk ≠ []) (fits : chunk.length ≤ bufferSize)
    (room : p.received.size + chunk.length ≤ limit) :
    (p.readReply bufferSize limit ⟨chunk :: more, ending⟩).outcome =
      match verdictAfter p.received.toList chunk with
      | .complete value _ => .value value
      | .invalid => .ofResult (conclude limit (p.received.toList ++ chunk) false)
      | .incomplete => ((p.absorb chunk).1.readReply bufferSize limit ⟨more, ending⟩).outcome := by
  rw [readReply_of_chunk kept ne fits room]
  cases verdictAfter p.received.toList chunk <;> rfl

theorem outcome_of_first (ne : chunk ≠ []) (fits : chunk.length ≤ bufferSize)
    (room : chunk.length ≤ limit) :
    (readReply bufferSize limit ⟨chunk :: more, ending⟩).outcome =
      match verdictAfter [] chunk with
      | .complete value _ => .value value
      | .invalid => .ofResult (conclude limit chunk false)
      | .incomplete =>
          ((Progress.start.absorb chunk).1.readReply bufferSize limit ⟨more, ending⟩).outcome :=
  outcome_of_chunk ⟨rfl, Nat.zero_le limit⟩ ne fits (by simpa [Progress.start] using room)

theorem outcome_of_rest (done : p.received.size = limit ∨ more = []) :
    (p.readReply bufferSize limit ⟨more, .close⟩).outcome =
      .ofResult (conclude limit p.received.toList (decide (p.received.size < limit))) := by
  rw [Progress.readReply_eq]
  split
  · next none =>
      have full : ¬ p.received.size < limit := fun within => by simp [Progress.want?, within] at none
      simp [full]
  · next want asked =>
      have within := Progress.within_of_want? asked
      rcases done with full | rfl
      · exact absurd within (by omega)
      · simp [Stream.receive, Progress.call, within]

end SocketRpc.Proofs.Framing
