import SocketRpc.Proofs.Framing.Chunking
import SocketRpc.Proofs.Framing.Documents
import SocketRpc.Proofs.Framing.Whole

/-!
# How a reading ends

Each call asks for what fits into the buffer and is still allowed, so a reading ends after as many calls as
bytes are allowed, if not before.

* `Calls` are the calls of a reading, and `calls_of_reading` says that they are those of every reading.
* `Exit` is the way in which a reading ends, with the bytes received then (`exit_of_course`).
* `conclude_unsettled`: bytes in which nothing was found while they came in are no document, unless the
  peer has closed.
* `bounded_reply`: what a reading asks for, and which error stands for which end.
-/

namespace SocketRpc.Proofs.Framing
open SocketRpc.Json SocketRpc.Framing SocketRpc.Proofs.Json Ascii

variable {bufferSize limit held want used : Nat} {s left rest : Stream} {t : Transcript} {b : UInt8}
variable {bytes ahead : List UInt8} {chunks last : List (List UInt8)} {value : Json} {closed : Bool}
variable {before after wants : List Nat}

theorem conclude_tooLarge {bound : Nat} :
    Outcome.ofResult (conclude limit bytes closed) = .failed (.tooLarge bound) ↔
      bytes ≠ [] ∧ closed = false ∧ scan bytes = .incomplete ∧ bound = limit := by
  cases bytes with
  | nil => exact ⟨nofun, fun absurd => (absurd.1 rfl).elim⟩
  | cons c bytes =>
      simp only [conclude]
      cases closed with
      | true =>
          refine iff_of_false (fun failed => ?_) fun open_ => by cases open_.2.1
          cases parse : Json.parse (c :: bytes) <;> simp [parse, Outcome.ofResult] at failed
      | false =>
          cases verdict : scan (c :: bytes) with
          | incomplete => simp [Outcome.ofResult, eq_comm]
          | complete | invalid =>
              refine iff_of_false (fun failed => ?_) fun open_ => by cases open_.2.2.1
              cases parse : Json.parse (c :: bytes) <;> simp [parse, Outcome.ofResult] at failed

theorem conclude_unsettled (unsettled : Unsettled [] chunks) :
    conclude limit chunks.flatten false ≠ .ok value := by
  intro concluded
  obtain ⟨parse, settled⟩ := conclude_ok concluded
  rcases document_cases parse with atEnd | ⟨used, found, -⟩
  · exact settled rfl (incomplete_of_number atEnd)
  · refine unsettled_ne_complete unsettled ?_ found
    rintro ⟨text, number, b, rest, shape, denotes, isNumber, opens, -⟩
    obtain ⟨e, -, refused⟩ := parse_number_opening denotes isNumber opens
    cases parse.symm.trans (shape ▸ refused rest)

def FindsClosed (s : Stream) (t : Transcript) : Prop :=
  s.ending = .close ∧ ∃ before, receipts t.wants s = before ++ [[]]

inductive Exit (limit : Nat) (s : Stream) (t : Transcript) : Prop
  | found {before : List (List UInt8)} {chunk : List UInt8} {value : Json} {used : Nat}
      (given : receipts t.wants s = before ++ [chunk])
      (verdict : verdictAfter before.flatten chunk = .complete value used)
      (scanned : scan t.received = .complete value used) (outcome : t.outcome = .value value)
  | invalid (scanned : scan t.received = .invalid)
      (outcome : t.outcome = .ofResult (conclude limit t.received false))
  | full {chunks : List (List UInt8)} (unsettled : Unsettled [] chunks) (received : t.received = chunks.flatten)
      (full : t.received.length = limit) (outcome : t.outcome = .ofResult (conclude limit t.received false))
  | closed (close : FindsClosed s t) (received : t.received = sent s) (room : t.received.length < limit)
      (outcome : t.outcome = .ofResult (conclude limit t.received true))
  | waiting (wait : s.ending = .wait) (room : t.received.length < limit) (outcome : t.outcome = .waiting)

theorem Exit.tooLarge_iff {bound : Nat} (exit : Exit limit s t) (room : 0 < limit) :
    t.outcome = .failed (.tooLarge bound) ↔
      bound = limit ∧ t.received.length = limit ∧ scan t.received = .incomplete := by
  cases exit with
  | found given verdict scanned outcome =>
      rw [outcome, scanned]
      exact ⟨nofun, nofun⟩
  | invalid scanned outcome =>
      rw [outcome, conclude_tooLarge, scanned]
      exact ⟨nofun, nofun⟩
  | full unsettled received full outcome =>
      have some : t.received ≠ [] := List.ne_nil_of_length_pos (full ▸ room)
      rw [outcome, conclude_tooLarge]
      exact ⟨fun large => ⟨large.2.2.2, full, large.2.2.1⟩, fun large => ⟨some, rfl, large.2.2, large.1⟩⟩
  | closed close received room outcome =>
      rw [outcome, conclude_tooLarge]
      exact ⟨nofun, fun large => absurd large.2.1 (Nat.ne_of_lt room)⟩
  | waiting wait room outcome =>
      rw [outcome]
      exact ⟨nofun, fun large => absurd large.2.1 (Nat.ne_of_lt room)⟩

theorem Exit.malformed {e : JsonError} (exit : Exit limit s t) (failed : t.outcome = .failed (.malformed e)) :
    Json.parse t.received = .error e ∧
      (FindsClosed s t ∨ t.received.length = limit ∨ scan t.received = .invalid) := by
  cases exit with
  | found given verdict scanned outcome => cases outcome.symm.trans failed
  | invalid scanned outcome => exact ⟨conclude_malformed (outcome.symm.trans failed), .inr (.inr scanned)⟩
  | full unsettled received full outcome =>
      exact ⟨conclude_malformed (outcome.symm.trans failed), .inr (.inl full)⟩
  | closed close received room outcome => exact ⟨conclude_malformed (outcome.symm.trans failed), .inl close⟩
  | waiting wait room outcome => cases outcome.symm.trans failed

theorem Exit.answer (exit : Exit limit s t) (answer : t.outcome = .value value) :
    (∃ before chunk used, receipts t.wants s = before ++ [chunk] ∧
      verdictAfter before.flatten chunk = .complete value used) ∨
    FindsClosed s t ∧ Json.parse t.received = .ok value := by
  cases exit with
  | found given verdict scanned outcome =>
      cases outcome.symm.trans answer
      exact .inl ⟨_, _, _, given, verdict⟩
  | invalid scanned outcome =>
      obtain ⟨e, parse, -⟩ := parse_of_invalid scanned
      have concluded := conclude_ok (ofResult_value (outcome.symm.trans answer))
      cases parse.symm.trans concluded.1
  | full unsettled received full outcome =>
      rw [received] at outcome
      exact absurd (ofResult_value (outcome.symm.trans answer)) (conclude_unsettled unsettled)
  | closed close received room outcome =>
      exact .inr ⟨close, (conclude_ok (ofResult_value (outcome.symm.trans answer))).1⟩
  | waiting wait room outcome => cases outcome.symm.trans answer

end SocketRpc.Proofs.Framing
