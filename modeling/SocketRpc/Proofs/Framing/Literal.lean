import SocketRpc.Proofs.Decoding.FirstByte
import SocketRpc.Proofs.Framing.Verdict

namespace SocketRpc.Proofs.Framing
open SocketRpc.Json SocketRpc.Framing SocketRpc.Proofs.Json SocketRpc.Proofs.Decoding Ascii

variable {used : Nat} {b first : UInt8} {blanks word text rest : List UInt8} {value tree : Json}

def isLiteral : Json → Bool
  | .null | .bool _ => true
  | _ => false

theorem word_isLiteral (literal : Word word value) : isLiteral value = true := by
  cases literal <;> rfl

theorem reaches_part {part due : List UInt8} (blank : ∀ c ∈ blanks, isBlank c)
    (literal : Word (part ++ due) value) (going : due ≠ []) :
    ∃ r, Reaches (blanks ++ part) r ∧ r.finish = .error .endInValue ∧
      ∀ b, due = [b] → r.step Json.maxDepth b = .done value := by
  have leads := advance_blanks Json.maxDepth blank
  obtain ⟨first, left, shape, more, letter, begins⟩ := begin_word Json.maxDepth [] literal
  cases part with
  | nil =>
      refine ⟨.start, by simpa using leads, rfl, ?_⟩
      rintro b rfl
      exact absurd (List.cons.inj shape).2.symm more
  | cons c part =>
      obtain ⟨rfl, rfl⟩ := List.cons.inj shape
      refine ⟨⟨.literal due value, []⟩, ?_, rfl, ?_⟩
      · have step : Reader.start.step Json.maxDepth c = .more ⟨.literal (part ++ due) value, []⟩ := by
          simp only [Reader.start, Reader.step, letter_solid letter]
          exact begins
        exact advance_append.2 ⟨.start, leads, by rw [advance_cons step, advance_literal going]⟩
      · rintro b rfl
        simp [Reader.step, Reader.settle]

theorem scan_part (part : List UInt8) {due : List UInt8} (blank : ∀ c ∈ blanks, isBlank c)
    (literal : Word (part ++ due) value) (going : due ≠ []) : scan (blanks ++ part) = .incomplete := by
  obtain ⟨r, goes, ends, -⟩ := reaches_part blank literal going
  rw [scan_open goes, ends]
  rfl

theorem literal_ends (blank : ∀ c ∈ blanks, isBlank c) (literal : Word word value) :
    ∃ part last r, word = part ++ [last] ∧ Reaches (blanks ++ part) r ∧
      r.step Json.maxDepth last = .done value := by
  obtain ⟨first, left, rfl, -, -, -⟩ := begin_word Json.maxDepth [] literal
  obtain ⟨part, last, shape⟩ : ∃ part last, first :: left = part ++ [last] :=
    ⟨_, _, (List.dropLast_concat_getLast (List.cons_ne_nil first left)).symm⟩
  obtain ⟨r, goes, -, step⟩ := reaches_part blank (shape ▸ literal) (by simp)
  exact ⟨part, last, r, shape, goes, step last rfl⟩

theorem read_literal (blank : ∀ c ∈ blanks, isBlank c) (literal : Word word value) (rest : List UInt8) :
    Json.read Json.maxDepth (blanks ++ word ++ rest) = .ok (value, rest) := by
  obtain ⟨part, last, r, rfl, goes, step⟩ := literal_ends blank literal
  simpa using read_done goes step rest

theorem scan_literal (blank : ∀ c ∈ blanks, isBlank c) (literal : Word word value) (rest : List UInt8) :
    scan (blanks ++ word ++ rest) = match rest with
      | [] => .complete value (blanks ++ word).length
      | b :: _ => if mayFollow b then .complete value (blanks ++ word).length else .invalid := by
  obtain ⟨first, left, rfl, -, letter, -⟩ := begin_word Json.maxDepth [] literal
  have begins : skipBlanks (blanks ++ first :: left ++ rest) = first :: (left ++ rest) := by
    rw [List.append_assoc, List.cons_append]
    exact skipBlanks_append blank (letter_solid letter)
  have used : (blanks ++ first :: left ++ rest).length - rest.length = (blanks ++ first :: left).length := by
    rw [List.length_append, Nat.add_sub_cancel]
  have canonical : value.canonical = value := by cases literal <;> rfl
  simp only [scan, begins, read_literal blank literal, used]
  cases rest <;> simp [judge, word_not_number literal, isOpening_letter letter, canonical]

theorem literal_cases (blank : ∀ c ∈ blanks, isBlank c) (literal : Word word value)
    (within : text <+: blanks ++ word ++ b :: rest) : scan text = .incomplete ∨ text = blanks ++ word ∨
      ∃ more, text = blanks ++ word ++ b :: more := by
  obtain ⟨beyond, within⟩ := within
  rcases append_split within with ⟨due, shape, -⟩ | ⟨more, shape, -⟩
  · rcases due with _ | ⟨c, due⟩
    · exact .inr (.inl (by simpa using shape.symm))
    · refine .inl ?_
      rcases List.append_eq_append_iff.1 shape with ⟨part, rfl, rfl⟩ | ⟨more, rfl, -⟩
      · exact scan_part part blank literal (by simp)
      · have going : word ≠ [] := by rintro rfl; cases literal
        simpa using scan_part [] (fun c hc => blank c (by simp [hc])) literal going
  · exact .inr (.inr ⟨more, shape⟩)

theorem not_literal_of_opens (opens : Opens first)
    (read : Json.read Json.maxDepth (first :: text) = .ok (tree, rest)) : isLiteral tree.canonical = false := by
  have kind := firstByte_of_read (opening_of_opens opens).2 read
  rcases opens with rfl | rfl | rfl
  · obtain ⟨items, rfl⟩ := kind.array.1 rfl
    rfl
  · obtain ⟨members, rfl⟩ := kind.object.1 rfl
    rfl
  · obtain ⟨s, rfl⟩ := kind.string.1 rfl
    rfl

theorem complete_cases (h : scan text = .complete value used) :
    (¬ (isLiteral value ∧ used = text.length) ∧ ∀ more, scan (text ++ more) = .complete value used) ∨
    ∃ blanks word, text = blanks ++ word ∧ (∀ c ∈ blanks, isBlank c) ∧ Word word value ∧
      used = text.length := by
  rcases open_or_stopped text with ⟨r, goes⟩ | ⟨front, b, rest, r, rfl, goes, stop⟩
  · exact absurd h (scan_open_ne_complete goes)
  rcases stop with ⟨tree, step⟩ | ⟨tree, step⟩ | ⟨e, -, refused⟩
  · obtain ⟨plain, -, blanks, first, begin, shape, blank, kind, verdict⟩ := scan_done goes step
    rw [verdict] at h
    obtain ⟨rfl, rfl⟩ := judge_complete h
    rcases kind with opens | literal
    · refine .inl ⟨fun atEnd => ?_, fun more => ?_⟩
      · have read : Json.read Json.maxDepth (first :: begin) = .ok (tree, []) := by
          rw [← skipBlanks_append blank (opening_of_opens opens).2, ← shape, read_skip]
          exact read_done goes step []
        cases atEnd.1.symm.trans (not_literal_of_opens opens read)
      · rw [List.append_assoc, List.cons_append, verdict]
        cases rest ++ more <;> simp [judge, plain, (opening_of_opens opens).1]
    · cases rest with
      | nil =>
          have same : tree.canonical = tree := by cases literal <;> rfl
          exact .inr ⟨blanks, first :: begin, shape, blank, same.symm ▸ literal, by simp⟩
      | cons c rest =>
          refine .inl ⟨fun atEnd => by simp at atEnd, fun more => ?_⟩
          rw [List.append_assoc, List.cons_append, verdict]
          exact h
  · rw [scan_doneBefore goes step] at h
    split at h
    · next follows =>
        cases h
        refine .inl ⟨fun atEnd => by simp at atEnd, fun more => ?_⟩
        rw [List.append_assoc, List.cons_append, scan_doneBefore goes step, if_pos follows]
    · cases h
  · cases (refused rest).1.symm.trans h

end SocketRpc.Proofs.Framing
