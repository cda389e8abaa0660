import SocketRpc.Proofs.Framing.Documents
import SocketRpc.Proofs.Framing.Finality
import SocketRpc.Proofs.Framing.Promptness
import SocketRpc.Proofs.Json.Short

/-!
# Replies without brackets or quotes

Nothing closes a literal or a number, so the reader of a reply must not take a beginning of it for the
value, and must not wait for more once it stands.

* `literal_settles`: a literal is settled with its last byte, if only a blank comes after it.
* `number_incomplete`: no beginning of a short number is complete or invalid, however it breaks off.
* `number_settles`: so a short number is settled with the blank after it.
-/

namespace SocketRpc.Proofs.Framing
open SocketRpc.Json SocketRpc.Framing SocketRpc.Proofs.Json Ascii

variable {bufferSize limit used n : Nat} {s : Stream} {t : Transcript} {b first : UInt8} {value : Json}
variable {bytes blanks word text digits early held chunk rest more ahead : List UInt8}
variable {chunks last : List (List UInt8)}

theorem settles_of_scans (used : Nat)
    (before : ∀ early, early <+: bytes → early.length < n → scan early = .incomplete)
    (after : ∀ late, late <+: bytes → n ≤ late.length → scan late = .complete value used)
    (found : ∀ held chunk, held ++ chunk <+: bytes → held.length < n → n ≤ (held ++ chunk).length →
      ¬ Missed held chunk value used) : Settles bytes n value where
  before held chunk within short := by
    rcases verdictAfter_cases held chunk with quiet | ⟨inspected, -⟩
    · exact quiet
    · rw [inspected]
      exact before _ within short
  crossing held chunk within short long := by
    have open_ := before held ((List.prefix_append held chunk).trans within) short
    have complete := after _ within long
    have fires := (fires_of_complete open_ complete).2 (found held chunk within short long)
    exact ⟨used, by rw [verdictAfter, if_pos fires, complete]⟩

theorem literal_settles (blank : ∀ c ∈ blanks, isBlank c) (literal : Word word value)
    (follows : ∀ b ∈ rest.head?, isBlank b) :
    Settles (blanks ++ word ++ rest) (blanks ++ word).length value := by
  apply settles_of_scans (blanks ++ word).length
  · intro early within short
    have inside := List.prefix_of_prefix_length_le within (List.prefix_append _ rest) (Nat.le_of_lt short)
    have longer : early <+: blanks ++ word ++ [space] := inside.trans (List.prefix_append _ _)
    rcases literal_cases blank literal longer with open_ | rfl | ⟨more, rfl⟩
    · exact open_
    · exact absurd short (Nat.lt_irrefl _)
    · rw [List.length_append] at short
      omega
  · intro late within long
    obtain ⟨mid, rfl⟩ := List.prefix_of_prefix_length_le (List.prefix_append _ rest) within long
    have within := (List.prefix_append_right_inj _).1 within
    rw [scan_literal blank literal]
    cases mid with
    | nil => rfl
    | cons b mid =>
        obtain ⟨beyond, rfl⟩ := within
        have next : mayFollow b = true := by simp [mayFollow, follows b rfl]
        exact if_pos next
  · intro held chunk within short long missed
    cases (word_not_number literal).symm.trans missed.1

theorem digits_incomplete (blank : ∀ c ∈ blanks, isBlank c) (numeric : isNumeric first)
    (short : (first :: digits).length ≤ 308) (whole : scan (blanks ++ first :: digits) = .incomplete)
    (within : early <+: blanks ++ first :: digits) : scan early = .incomplete := by
  obtain ⟨r, goes⟩ := reaches_of_incomplete whole
  obtain ⟨late, shape⟩ := within
  obtain ⟨mid, reaches, -⟩ := advance_append.1 (shape ▸ goes)
  rw [scan_open reaches]
  cases stops : mid.finish with
  | ok tree => rfl
  | error reason =>
      rcases finish_error stops with isEnd | rfl
      · exact if_pos isEnd
      · obtain ⟨numeral, stack, rfl, large⟩ := number_of_tooLarge stops
        rcases append_split shape with ⟨gap, rfl, -⟩ | ⟨part, rfl, rfl⟩
        · cases reaches.symm.trans (advance_blanks Json.maxDepth fun c member => blank c (by simp [member]))
        · obtain ⟨begin, leads, onward⟩ := advance_append.1 reaches
          cases leads.symm.trans (advance_blanks Json.maxDepth blank)
          have small : (first :: part).length ≤ 308 := by
            simp only [List.length_cons, List.length_append] at short ⊢
            omega
          have climbs := short_fits (short_of_digits numeric onward) small large
          cases whole.symm.trans (shape ▸ scan_climbs reaches climbs large late)

theorem reaches_number (blank : ∀ c ∈ blanks, isBlank c) (denotes : Denotes text value)
    (number : value.isNumber) :
    ∃ r tree, Reaches (blanks ++ text) r ∧ r.finish = .ok tree ∧ value = tree.canonical := by
  obtain ⟨r, tree, goes, ends, same⟩ := open_of_number denotes number
  exact ⟨r, tree, advance_append.2 ⟨.start, advance_blanks Json.maxDepth blank, goes⟩, ends, same⟩

theorem number_incomplete (blank : ∀ c ∈ blanks, isBlank c) (denotes : Denotes text value)
    (number : value.isNumber) (short : text.length ≤ 308) (within : early <+: blanks ++ text) :
    scan early = .incomplete := by
  have whole : scan (blanks ++ text) = .incomplete := by
    obtain ⟨r, tree, goes, ends, -⟩ := reaches_number blank denotes number
    rw [scan_open goes, ends]
  obtain ⟨r, tree, goes, ends, -⟩ := open_of_number denotes number
  obtain ⟨gap, first, digits, rfl, gapBlank, numeric⟩ := solid_of_advance goes ends
  rw [← List.append_assoc] at whole within
  rw [List.length_append] at short
  refine digits_incomplete (fun c member => ?_) (numeric first List.mem_cons_self) (by omega) whole within
  exact (List.mem_append.1 member).elim (blank c) (gapBlank c)

theorem number_settles (blank : ∀ c ∈ blanks, isBlank c) (denotes : Denotes text value)
    (number : value.isNumber) (short : text.length ≤ 308) (follows : isBlank b) :
    Settles (blanks ++ text ++ b :: more) ((blanks ++ text).length + 1) value := by
  apply settles_of_scans (blanks ++ text).length
  · intro early within fewer
    apply number_incomplete blank denotes number short
    exact List.prefix_of_prefix_length_le within (List.prefix_append _ _) (Nat.le_of_lt_succ fewer)
  · intro late within long
    obtain ⟨mid, rfl⟩ := List.prefix_of_prefix_length_le (List.prefix_append _ _) within (Nat.le_of_succ_le long)
    obtain ⟨r, tree, goes, ends, rfl⟩ := reaches_number blank denotes number
    cases mid with
    | nil => exact absurd long (by simp)
    | cons c mid =>
        obtain ⟨rfl, -⟩ := List.cons_prefix_cons.1 ((List.prefix_append_right_inj _).1 within)
        rw [scan_doneBefore goes (doneBefore_of_finish ends (blank_not_numeric follows))]
        exact if_pos (by simp [mayFollow, follows])
  · rintro held chunk within fewer long ⟨-, used, quiet⟩
    have same : held = blanks ++ text := by
      have first := (List.prefix_append held chunk).trans within
      exact (List.prefix_of_prefix_length_le first (List.prefix_append _ _) (Nat.le_of_eq used.symm)).eq_of_length
        used.symm
    subst same
    cases chunk with
    | nil => exact absurd long (by simp)
    | cons c chunk =>
        obtain ⟨rfl, -⟩ := List.cons_prefix_cons.1 ((List.prefix_append_right_inj _).1 within)
        cases (opening_of_opens (opens_of_isOpening (opening_of_quiet quiet))).2.symm.trans follows

theorem course_of_number (course : Course limit [] s t chunks last ahead) (close : s.ending = .close)
    (parse : Json.parse (sent s) = .ok value) (open_ : ∀ early, early <+: sent s → scan early = .incomplete)
    (room : (sent s).length < limit) : t.outcome = .value value := by
  have within := course.within.trans (List.take_prefix limit (sent s))
  rcases course.closed_cases close with ⟨value, used, scanned, -⟩ | ⟨scanned, -⟩ | ⟨-, outcome⟩
  · cases scanned.symm.trans (open_ _ within)
  · cases scanned.symm.trans (open_ _ within)
  · rw [outcome, List.take_of_length_le (Nat.le_of_lt room), decide_eq_true room]
    cases bytes : sent s with
    | nil =>
        rw [bytes] at parse
        cases parse
    | cons b bytes =>
        rw [bytes] at parse
        simp [conclude, parse, Outcome.ofResult]

/-- A literal that only a blank or the end follows is the reply, read no further than the chunk that brings
its last byte. So is a short number, read no further than the chunk that brings the blank after it. -/
theorem scalar_reply (positive : 0 < bufferSize) (nonempty : [] ∉ s.chunks) (blank : ∀ c ∈ blanks, isBlank c)
    (bytes : sent s = blanks ++ text ++ rest)
    (ends : (rest = [] ∧ s.ending = .close) ∨ ∃ b more, rest = b :: more ∧ isBlank b) :
    (∀ value, Word text value → (blanks ++ text).length ≤ limit →
      (readReply bufferSize limit s).outcome = .value value ∧
      ∃ before chunk, receipts (readReply bufferSize limit s).wants s = before ++ [chunk] ∧
        before.flatten.length < (blanks ++ text).length ∧
        (blanks ++ text).length ≤ (before ++ [chunk]).flatten.length) ∧
    (∀ value, Denotes text value → value.isNumber → text.length ≤ 308 → (blanks ++ text).length < limit →
      (readReply bufferSize limit s).outcome = .value value ∧
      (rest ≠ [] → ∃ before chunk, receipts (readReply bufferSize limit s).wants s = before ++ [chunk] ∧
        before.flatten.length ≤ (blanks ++ text).length ∧
        (blanks ++ text).length < (before ++ [chunk]).flatten.length)) := by
  obtain ⟨chunks, last, ahead, course⟩ := readReply_course limit positive nonempty
  constructor
  · intro value literal room
    have follows : ∀ b ∈ rest.head?, isBlank b := by
      rcases ends with ⟨rfl, -⟩ | ⟨b, more, rfl, isBlank⟩
      · simp
      · simpa using isBlank
    have settles := literal_settles blank literal follows
    rw [← bytes] at settles
    have letters : 0 < (blanks ++ text).length := by cases literal <;> simp
    obtain ⟨outcome, chunk, rfl, short, long⟩ := course_settles course settles letters room (by simp [bytes])
    exact ⟨outcome, chunks, chunk, course.given, short, long⟩
  · intro value denotes number small room
    rcases ends with ⟨rfl, close⟩ | ⟨b, more, rfl, isBlank⟩
    · rw [List.append_nil] at bytes
      rw [← bytes] at room
      obtain ⟨r, tree, goes, ends, rfl⟩ := reaches_number blank denotes number
      have parse := (denotes_open goes ends).1
      rw [← bytes] at parse
      refine ⟨course_of_number course close parse (fun early within => ?_) room, absurd rfl⟩
      exact number_incomplete blank denotes number small (bytes ▸ within)
    · have settles : Settles (blanks ++ text ++ b :: more) ((blanks ++ text).length + 1) value :=
        number_settles blank denotes number small isBlank
      rw [← bytes] at settles
      have given : (blanks ++ text).length < (sent s).length := by simp [bytes]
      obtain ⟨outcome, chunk, rfl, short, long⟩ := course_settles course settles (Nat.succ_pos _) room given
      exact ⟨outcome, fun _ => ⟨chunks, chunk, course.given, Nat.le_of_lt_succ short, long⟩⟩

theorem scalar_reply_of_negative :
    (readReply 1 8 ⟨[[space, minus], [0x31, 0x32], [newline, quote]], .wait⟩).outcome =
      .value (.number (.integer (-12) (by decide))) := by
  have denotes : Denotes [minus, 0x31, 0x32] (.number (.integer (-12) (by decide))) := ⟨rfl, by simp; rfl⟩
  have bytes : sent ⟨[[space, minus], [0x31, 0x32], [newline, quote]], .wait⟩ =
      [space] ++ [minus, 0x31, 0x32] ++ [newline, quote] := rfl
  have blank : ∀ c ∈ [space], isBlank c := List.forall_mem_singleton.2 rfl
  exact ((scalar_reply Nat.one_pos (by decide) blank bytes (.inr ⟨newline, [quote], rfl, rfl⟩)).2 _
    denotes rfl (by decide) (by decide)).1

end SocketRpc.Proofs.Framing
