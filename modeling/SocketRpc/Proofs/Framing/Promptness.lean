import SocketRpc.Proofs.Framing.Run

/-!
# Replies are not left waiting

The bytes are only inspected when a chunk has come in that may have ended the value.

* `fires_of_complete`: the chunk with which the bytes become complete asks for the inspection, except
  for one that begins with a new value right after a number (`Missed`).
* `prompt_chunk`: the call that brings this chunk is then the last one, and gives the value.
* `prompt_reply`: so the reading ends with the chunk that completes the value, except for such a chunk.
-/

namespace SocketRpc.Proofs.Framing
open SocketRpc.Json SocketRpc.Framing SocketRpc.Proofs.Json Ascii

variable {bufferSize limit used : Nat} {p : Progress} {ending : Ending} {value : Json}
variable {held chunk : List UInt8} {chunks before more : List (List UInt8)}

/-- The value is a number, which all the bytes held make up, and the chunk after it asks for no
inspection. -/
def Missed (held chunk : List UInt8) (value : Json) (used : Nat) : Prop :=
  value.isNumber ∧ used = held.length ∧ (Boundary.start.feed chunk).2 = false

theorem fires_of_complete (open_ : scan held = .incomplete)
    (complete : scan (held ++ chunk) = .complete value used) :
    ((Boundary.start.feed held).1.feed chunk).2 = true ↔ ¬ Missed held chunk value used := by
  obtain ⟨reader, reaches⟩ := reaches_of_incomplete open_
  rcases advance_or_stop Json.maxDepth reader chunk with ⟨r, onward⟩ | ⟨mid, b, rest, r, rfl, onward, stop⟩
  · exact absurd complete (scan_open_ne_complete (advance_append.2 ⟨reader, reaches, onward⟩))
  have goes : Reaches (held ++ mid) r := advance_append.2 ⟨reader, reaches, onward⟩
  rw [← List.append_assoc] at complete
  cases step : r.step Json.maxDepth b with
  | more next => exact absurd step (stop next)
  | done tree =>
      obtain ⟨plain, -, blanks, first, begin, -, -, -, verdict⟩ := scan_done goes step
      obtain ⟨rfl, -⟩ := judge_complete ((verdict rest).symm.trans complete)
      refine iff_of_true (fires_of_done goes step rest) fun missed => ?_
      cases plain.symm.trans ((isNumber_canonical tree).symm.trans missed.1)
  | doneBefore tree =>
      have ends := finish_of_doneBefore (trace_of_advance goes) step
      have plain := plain_of_finish goes ends
      have start : (Boundary.start.feed held).1 = .start :=
        feed_plain fun c member => plain c (List.mem_append_left mid member)
      rw [scan_doneBefore goes step] at complete
      split at complete <;> cases complete
      have number : tree.canonical.isNumber := by rw [isNumber_canonical, (finish_ok ends).1]
      rw [start, Missed, List.length_append]
      by_cases whole : mid = []
      · subst whole
        simp [number]
      · have fires := fires_of_plain (fun c member => plain c (List.mem_append_right held member)) whole
        have longer := List.length_pos_iff.2 whole
        exact iff_of_true (fires (b :: rest)) fun missed => by omega
  | refused reason back => cases (scan_refused goes (.inl ⟨back, step⟩) rest).symm.trans complete
  | refusedBefore reason => cases (scan_refused goes (.inr step) rest).symm.trans complete

theorem unsettled_of_incomplete
    (open_ : ∀ early, early <+: chunks → scan (held ++ early.flatten) = .incomplete) :
    Unsettled held chunks := by
  induction chunks generalizing held with
  | nil => trivial
  | cons chunk chunks ih =>
      have first := open_ [chunk] ⟨chunks, rfl⟩
      refine ⟨?_, ih fun early within => ?_⟩
      · rcases verdictAfter_cases held chunk with quiet | ⟨inspected, -⟩
        · exact quiet
        · simpa [inspected] using first
      · simpa using open_ (chunk :: early) (List.cons_prefix_cons.2 ⟨rfl, within⟩)

theorem readReply_of_unsettled (more : List (List UInt8)) (ending : Ending) (kept : Kept limit p)
    (unsettled : Unsettled p.received.toList chunks) (each : ∀ c ∈ chunks, c ≠ [] ∧ c.length ≤ bufferSize)
    (room : p.received.size + chunks.flatten.length ≤ limit) : ∃ q, Kept limit q ∧
      q.received.toList = p.received.toList ++ chunks.flatten ∧
      (p.readReply bufferSize limit ⟨chunks ++ more, ending⟩).outcome =
        (q.readReply bufferSize limit ⟨more, ending⟩).outcome ∧
      (p.readReply bufferSize limit ⟨chunks ++ more, ending⟩).wants.length =
        chunks.length + (q.readReply bufferSize limit ⟨more, ending⟩).wants.length := by
  induction chunks generalizing p with
  | nil => exact ⟨p, kept, by simp, rfl, by simp⟩
  | cons chunk chunks ih =>
      obtain ⟨verdict, unsettled⟩ := unsettled
      obtain ⟨ne, fits⟩ := each chunk List.mem_cons_self
      simp only [List.flatten_cons, List.length_append] at room
      have absorbed := p.toList_received_absorb chunk
      have kept' : Kept limit (p.absorb chunk).1 := (kept_absorb kept (by omega) rfl).1
      obtain ⟨q, kept'', bytes, outcome, wants⟩ := ih kept' (absorbed ▸ unsettled)
        (fun c member => each c (List.mem_cons_of_mem chunk member))
        (by rw [Progress.size_received_absorb]; omega)
      refine ⟨q, kept'', by simpa [absorbed] using bytes, ?_⟩
      rw [List.cons_append, readReply_of_chunk kept ne fits (by omega), verdict]
      refine ⟨outcome, ?_⟩
      simp only [Transcript.after, List.length_cons, wants]
      omega

theorem outcome_of_no_call {s : Stream} {t : Transcript} (reading : Reading bufferSize limit p s t)
    (none : t.wants = []) : t.outcome = .ofResult (conclude limit p.received.toList false) := by
  cases reading with
  | full => rfl
  | _ => cases none

theorem conclude_missed (limit : Nat) (ne : chunk ≠ []) (complete : scan (held ++ chunk) = .complete value used)
    (missed : Missed held chunk value used) : ∃ e, conclude limit (held ++ chunk) false = .error e := by
  obtain ⟨number, rfl, quiet⟩ := missed
  obtain ⟨b, rest, rfl⟩ := List.exists_cons_of_ne_nil ne
  have denotes := (denotes_of_scan complete).2.1
  rw [List.take_left] at denotes
  obtain ⟨e, -, trailing⟩ := parse_number_opening denotes number (opening_of_quiet quiet)
  exact ⟨_, conclude_error (by simp) (trailing rest)⟩

theorem prompt_chunk (kept : Kept limit p) (ne : chunk ≠ []) (fits : chunk.length ≤ bufferSize)
    (room : p.received.size + chunk.length ≤ limit) (open_ : scan p.received.toList = .incomplete)
    (complete : scan (p.received.toList ++ chunk) = .complete value used) :
    ((p.readReply bufferSize limit ⟨chunk :: more, ending⟩).outcome = .value value ∧
      (p.readReply bufferSize limit ⟨chunk :: more, ending⟩).wants.length = 1) ↔
    ¬ Missed p.received.toList chunk value used := by
  have fires := fires_of_complete open_ complete
  rw [readReply_of_chunk kept ne fits room]
  by_cases missed : Missed p.received.toList chunk value used
  · have quiet : verdictAfter p.received.toList chunk = .incomplete :=
      if_neg fun inspected => fires.1 inspected missed
    obtain ⟨e, refused⟩ := conclude_missed limit ne complete missed
    refine iff_of_false ?_ fun other => other missed
    rw [quiet]
    rintro ⟨answer, calls⟩
    -- Without one more call all the bytes were concluded upon, and they are no value.
    have none : ((p.absorb chunk).1.readReply bufferSize limit ⟨more, ending⟩).wants = [] := by
      apply List.length_eq_zero_iff.1
      exact Nat.succ.inj calls
    have reading := reading_readReply bufferSize limit (p.absorb chunk).1 ⟨more, ending⟩
    simp only [Transcript.after, outcome_of_no_call reading none, Progress.toList_received_absorb, refused] at answer
    cases answer
  · have found : verdictAfter p.received.toList chunk = .complete value used := by
      rw [verdictAfter, if_pos (fires.2 missed), complete]
    rw [found]
    exact iff_of_true ⟨rfl, rfl⟩ missed

/-- The reading ends with the chunk that completes the value, unless that chunk is missed. -/
theorem prompt_reply (each : ∀ c ∈ before ++ [chunk], c ≠ [] ∧ c.length ≤ bufferSize)
    (room : (before ++ [chunk]).flatten.length ≤ limit)
    (open_ : ∀ early, early <+: before → scan early.flatten = .incomplete)
    (complete : scan (before ++ [chunk]).flatten = .complete value used)
    (more : List (List UInt8)) (ending : Ending) :
    ((readReply bufferSize limit ⟨before ++ chunk :: more, ending⟩).outcome = .value value ∧
      (readReply bufferSize limit ⟨before ++ chunk :: more, ending⟩).wants.length = before.length + 1) ↔
    ¬ Missed before.flatten chunk value used := by
  rw [List.flatten_append, List.flatten_singleton] at room complete
  rw [List.length_append] at room
  obtain ⟨ne, fits⟩ := each chunk (by simp)
  have start : Kept limit .start := ⟨rfl, Nat.zero_le limit⟩
  have unsettled : Unsettled Progress.start.received.toList before := unsettled_of_incomplete open_
  obtain ⟨q, kept, bytes, outcome, wants⟩ := readReply_of_unsettled (chunk :: more) ending start unsettled
    (fun c member => each c (List.mem_append_left [chunk] member))
    (by show 0 + before.flatten.length ≤ limit; omega)
  have held : q.received.toList = before.flatten := bytes
  have size : q.received.size = before.flatten.length := by rw [← Array.length_toList, held]
  rw [readReply, outcome, wants, Nat.add_left_cancel_iff, ← held]
  apply prompt_chunk kept ne fits
  · omega
  · rw [held]
    exact open_ before (List.prefix_refl before)
  · rw [held]
    exact complete

theorem space_completes_number :
    (readReply 4 8 ⟨[[0x31, 0x32], [space]], .wait⟩).outcome = .value (Json.ofNat 12) ∧
    (readReply 4 8 ⟨[[0x31, 0x32], [space]], .wait⟩).wants.length = 2 := by
  have each : ∀ c ∈ [[0x31, 0x32]] ++ [[space]], c ≠ [] ∧ c.length ≤ 4 := by decide
  have open_ : ∀ early, early <+: [[0x31, 0x32]] → scan early.flatten = .incomplete := by
    intro early within
    cases early with
    | nil => rfl
    | cons first early =>
        obtain ⟨rfl, last⟩ := List.cons_prefix_cons.1 within
        rw [List.prefix_nil.1 last]
        rfl
  have complete : scan ([[0x31, 0x32]] ++ [[space]]).flatten = .complete (Json.ofNat 12) 2 := rfl
  exact (prompt_reply each (by decide) open_ complete [] .wait).2 fun missed => by cases missed.2.2

theorem outcome_of_silence (h : p.received.size < limit) :
    (p.readReply bufferSize limit ⟨[], .wait⟩).outcome = .waiting := by
  rw [Progress.readReply_eq]
  split
  · next none => simp [Progress.want?, h] at none
  · rfl

/-- The byte that opens the next value completes the number before it, but the reading goes on. -/
theorem number_left_waiting :
    scan [0x31, 0x32] = .incomplete ∧
    scan ([0x31, 0x32] ++ [openBracket, 0x31]) = .complete (Json.ofNat 12) 2 ∧
    (readReply 8 16 ⟨[[0x31, 0x32], [openBracket, 0x31]], .wait⟩).outcome = .waiting := by
  refine ⟨rfl, rfl, ?_⟩
  have start : Kept 16 .start := ⟨rfl, Nat.zero_le 16⟩
  have unsettled : Unsettled Progress.start.received.toList [[0x31, 0x32], [openBracket, 0x31]] :=
    ⟨rfl, rfl, trivial⟩
  obtain ⟨q, -, bytes, outcome, -⟩ := readReply_of_unsettled [] .wait start unsettled
    (by decide : ∀ c ∈ _, c ≠ [] ∧ c.length ≤ 8) (by decide)
  refine outcome.trans (outcome_of_silence ?_)
  rw [← Array.length_toList, bytes]
  decide

end SocketRpc.Proofs.Framing
