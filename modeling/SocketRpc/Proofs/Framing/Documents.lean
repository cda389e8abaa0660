import SocketRpc.Proofs.Framing.Verdict

/-!
# Verdicts and whole documents

A reply is found with `scan`, which lets anything come after a value, and reported with `parse`, which lets
only blanks come after it. They differ in this and in numbers at the end of the input, and in nothing else.

* `incomplete_documents`: an input is incomplete if it breaks off or is a number up to its last byte.
* `document_of_complete` and `document_cases`: an input with a complete value is a document exactly if
  only blanks are left.
* `scan_and_parse` puts the verdicts side by side with what `parse` gives.
-/

namespace SocketRpc.Proofs.Framing
open SocketRpc.Json SocketRpc.Framing SocketRpc.Proofs.Json Ascii

variable {used : Nat} {bytes : List UInt8} {value : Json}

def NumberAtEnd (bytes : List UInt8) (value : Json) : Prop := value.isNumber ∧ Denotes bytes value

theorem incomplete_of_number (h : NumberAtEnd bytes value) : scan bytes = .incomplete := by
  obtain ⟨number, denotes⟩ := h
  obtain ⟨r, tree, goes, ends, -⟩ := open_of_number denotes number
  rw [scan_open goes, ends]

theorem incomplete_documents : scan bytes = .incomplete ↔
    (∃ e, Json.parse bytes = .error e ∧ e.category = .truncated) ∨ ∃ value, NumberAtEnd bytes value := by
  constructor
  · intro open_
    obtain ⟨r, goes⟩ := reaches_of_incomplete open_
    cases ends : r.finish with
    | error reason =>
        have parse := parse_open goes ends
        exact .inl ⟨_, parse, (incomplete_iff parse).1 open_⟩
    | ok tree =>
        have number : tree.canonical.isNumber := by rw [isNumber_canonical, (finish_ok ends).1]
        exact .inr ⟨tree.canonical, number, denotes_open goes ends⟩
  · rintro (⟨e, parse, truncated⟩ | ⟨value, atEnd⟩)
    · exact (incomplete_iff parse).2 truncated
    · exact incomplete_of_number atEnd

theorem read_of_complete (h : scan bytes = .complete value used) :
    ∃ tree, Json.read Json.maxDepth bytes = .ok (tree, bytes.drop used) ∧ value = tree.canonical := by
  rcases open_or_stopped bytes with ⟨r, goes⟩ | ⟨text, b, rest, r, rfl, goes, stop⟩
  · exact absurd h (scan_open_ne_complete goes)
  rcases stop with ⟨tree, step⟩ | ⟨tree, step⟩ | ⟨e, -, refused⟩
  · obtain ⟨-, -, blanks, first, more, -, -, -, verdict⟩ := scan_done goes step
    obtain ⟨rfl, rfl⟩ := judge_complete ((verdict rest).symm.trans h)
    exact ⟨tree, by rw [read_done goes step]; simp, rfl⟩
  · rw [scan_doneBefore goes step] at h
    split at h <;> cases h
    exact ⟨tree, by rw [read_doneBefore goes step]; simp, rfl⟩
  · cases (refused rest).1.symm.trans h

theorem document_of_complete (h : scan bytes = .complete value used) :
    Json.parse bytes = .ok value ↔ ∀ c ∈ bytes.drop used, isBlank c := by
  obtain ⟨tree, read, rfl⟩ := read_of_complete h
  refine ⟨fun parse => (parse_of_read parse read).2, fun blank => ?_⟩
  have skip : skipBlanks (bytes.drop used) = [] := by
    rw [skipBlanks, ← List.append_nil (bytes.drop used), List.dropWhile_append_of_pos blank]
    rfl
  simp [Json.parse, read, Json.trailing?, skip]

theorem document_cases (h : Json.parse bytes = .ok value) : NumberAtEnd bytes value ∨
    ∃ used, scan bytes = .complete value used ∧ ∀ c ∈ bytes.drop used, isBlank c := by
  have complete (used : Nat) (found : scan bytes = .complete value used) :
      ∃ used, scan bytes = .complete value used ∧ ∀ c ∈ bytes.drop used, isBlank c :=
    ⟨used, found, (document_of_complete found).1 h⟩
  obtain ⟨text, rest, rfl, ended, blank⟩ := ended_of_parse h
  have follows {b : UInt8} (member : b ∈ rest) : mayFollow b = true := by simp [mayFollow, blank b member]
  rcases ended with ⟨front, b, r, tree, rfl, goes, step, rfl⟩ | ⟨r, tree, goes, ends, rfl⟩
  · obtain ⟨plain, -, blanks, first, more, -, -, -, verdict⟩ := scan_done goes step
    refine .inr (complete (front.length + 1) ?_)
    rw [List.append_assoc, List.singleton_append, verdict]
    cases rest with
    | nil => simp [judge, plain]
    | cons c rest => simp [judge, follows List.mem_cons_self]
  · cases rest with
    | nil =>
        rw [List.append_nil]
        exact .inl ⟨by rw [isNumber_canonical, (finish_ok ends).1], denotes_open goes ends⟩
    | cons c rest =>
        have other : isNumeric c = false := by
          refine Bool.of_not_eq_true fun numeric => ?_
          cases (numeric_solid numeric).symm.trans (blank c List.mem_cons_self)
        refine .inr (complete text.length ?_)
        rw [scan_doneBefore goes (doneBefore_of_finish ends other), if_pos (follows List.mem_cons_self)]

/-- A complete value is that of a document, the bytes up to its end. An invalid input is no document, for
another reason than that it breaks off. An incomplete input breaks off, or is a number at the end. A
document is a number at the end, which is incomplete, or a complete value with only blanks after it. -/
theorem scan_and_parse (bytes : List UInt8) :
    (∀ value used, scan bytes = .complete value used →
      used ≤ bytes.length ∧ Json.parse (bytes.take used) = .ok value) ∧
    (scan bytes = .invalid → ∃ e, Json.parse bytes = .error e ∧ e.category ≠ .truncated) ∧
    (scan bytes = .incomplete ↔
      (∃ e, Json.parse bytes = .error e ∧ e.category = .truncated) ∨ ∃ value, NumberAtEnd bytes value) ∧
    (∀ value, Json.parse bytes = .ok value ↔ (NumberAtEnd bytes value ∧ scan bytes = .incomplete) ∨
      ∃ used, scan bytes = .complete value used ∧ ∀ c ∈ bytes.drop used, isBlank c) := by
  refine ⟨?_, parse_of_invalid, incomplete_documents, fun value => ⟨fun parse => ?_, ?_⟩⟩
  · intro value used found
    obtain ⟨within, denotes, -⟩ := denotes_of_scan found
    exact ⟨within, denotes.1⟩
  · exact (document_cases parse).imp_left fun atEnd => ⟨atEnd, incomplete_of_number atEnd⟩
  · rintro (⟨atEnd, -⟩ | ⟨used, found, blank⟩)
    · exact atEnd.2.1
    · exact (document_of_complete found).2 blank

end SocketRpc.Proofs.Framing
