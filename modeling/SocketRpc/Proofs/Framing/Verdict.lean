import SocketRpc.Framing.Scan
import SocketRpc.Proofs.Json.Reading

/-!
# The verdict on the bytes received

`scan` looks at the bytes received so far, `parse` at a whole input. Both follow the reader, so each
of their answers belongs to one way in which the reader stops.

* `scan_open`, `scan_done`, `scan_doneBefore` and `scan_refused` give the verdict on an input that
  leaves its value open, or whose value stops at a byte, with any bytes after it.
* `parse_of_invalid` and `incomplete_iff` say how the whole input fails under a verdict.
* `Denotes` is a text that stands for a value and has no blanks after it; `ended_of_denotes` says how
  the reader ends on it, and `denotes_of_scan` finds one under every complete verdict.
-/

namespace SocketRpc.Proofs.Framing
open SocketRpc.Json SocketRpc.Framing SocketRpc.Proofs.Json Ascii

variable {r : Reader} {b : UInt8} {text rest : List UInt8} {value : Json}

abbrev Reaches (text : List UInt8) (r : Reader) : Prop :=
  advance Json.maxDepth .start text = some r

theorem read_reaches (h : Reaches text r) (rest : List UInt8) :
    Json.read Json.maxDepth (text ++ rest) = r.run Json.maxDepth rest :=
  run_of_advance h rest

theorem read_reaches_all (h : Reaches text r) :
    Json.read Json.maxDepth text = r.run Json.maxDepth [] := by
  simpa using read_reaches h []

theorem append_split {front back : List UInt8} (h : front ++ back = text ++ b :: rest) :
    (∃ mid, text = front ++ mid ∧ back = mid ++ b :: rest) ∨
    ∃ mid, front = text ++ b :: mid ∧ rest = mid ++ back := by
  rcases List.append_eq_append_iff.1 h with ⟨mid, rfl, later⟩ | ⟨mid, rfl, later⟩
  · exact .inl ⟨mid, rfl, later⟩
  · cases mid with
    | nil => exact .inl ⟨[], by simp, later.symm⟩
    | cons c mid =>
        obtain ⟨rfl, rfl⟩ := List.cons.inj later
        exact .inr ⟨mid, rfl, rfl⟩

theorem read_done (h : Reaches text r) (step : r.step Json.maxDepth b = .done value)
    (rest : List UInt8) : Json.read Json.maxDepth (text ++ b :: rest) = .ok (value, rest) := by
  rw [read_reaches h, Reader.run, step]

theorem read_doneBefore (h : Reaches text r) (step : r.step Json.maxDepth b = .doneBefore value)
    (rest : List UInt8) : Json.read Json.maxDepth (text ++ b :: rest) = .ok (value, b :: rest) := by
  rw [read_reaches h, Reader.run, step]

theorem blank_of_skipBlanks (h : skipBlanks text = []) : ∀ b ∈ text, isBlank b := by
  have split := List.takeWhile_append_dropWhile (p := isBlank) (l := text)
  rw [← skipBlanks, h, List.append_nil] at split
  rw [← split]
  exact List.all_eq_true.1 List.all_takeWhile

theorem skipBlanks_append {blanks more : List UInt8} {first : UInt8}
    (h : ∀ b ∈ blanks, isBlank b) (solid : isBlank first = false) :
    skipBlanks (blanks ++ first :: more) = first :: more := by
  rw [skipBlanks, List.dropWhile_append_of_pos h]
  simp [solid]

theorem skipBlanks_ne_nil (h : Reaches text r) (stop : Stops Json.maxDepth r b) :
    skipBlanks (text ++ b :: rest) ≠ [] := by
  intro blank
  have goes := advance_blanks Json.maxDepth (blank_of_skipBlanks blank)
  rw [advance_stops h stop] at goes
  cases goes

theorem toError_append (text rest : List UInt8) (reason : SyntaxError) (back : Nat) :
    Fault.toError (text ++ rest) ⟨reason, rest.length, back⟩ = Fault.toError text ⟨reason, 0, back⟩ := by
  simp [Fault.toError, Position.of]

theorem category_toError {input : List UInt8} {fault : Fault} :
    (fault.toError input).category = .truncated ↔ fault.reason.isEnd := by
  simp only [JsonError.category, Fault.toError]
  cases fault.reason.isEnd <;> simp

theorem parse_of_read_error {input : List UInt8} {fault : Fault}
    (h : Json.read Json.maxDepth input = .error fault) :
    Json.parse input = .error (fault.toError input) := by
  simp only [Json.parse, h]

theorem parse_refused {reason : SyntaxError} {back : Nat} (h : Reaches text r)
    (step : r.step Json.maxDepth b = .refused reason back) (rest : List UInt8) :
    Json.parse (text ++ b :: rest) = .error (Fault.toError (text ++ [b]) ⟨reason, 0, back⟩) := by
  have fault : Json.read Json.maxDepth (text ++ b :: rest) = .error ⟨reason, rest.length, back⟩ := by
    rw [read_reaches h, Reader.run, step]
  rw [parse_of_read_error fault, ← toError_append (text ++ [b]) rest]
  simp

theorem parse_refusedBefore {reason : SyntaxError} (h : Reaches text r)
    (step : r.step Json.maxDepth b = .refusedBefore reason) (rest : List UInt8) :
    Json.parse (text ++ b :: rest) = .error (Fault.toError text ⟨reason, 0, 0⟩) := by
  have fault : Json.read Json.maxDepth (text ++ b :: rest) = .error ⟨reason, (b :: rest).length, 0⟩ := by
    rw [read_reaches h, Reader.run, step]
    rfl
  rw [parse_of_read_error fault, toError_append]

theorem parse_open {reason : SyntaxError} (h : Reaches text r) (ends : r.finish = .error reason) :
    Json.parse text = .error (Fault.toError text ⟨reason, 0, 0⟩) := by
  apply parse_of_read_error
  rw [read_reaches_all h, Reader.run, ends]

theorem judge_settled {first : UInt8} {used : Nat} (plain : value.isNumber = false) :
    judge first value used rest ≠ .incomplete := by
  cases rest with
  | nil => simp [judge, plain]
  | cons c rest =>
      simp only [judge]
      split <;> simp

theorem judge_complete {first : UInt8} {tree : Json} {used n : Nat}
    (h : judge first tree used rest = .complete value n) : value = tree.canonical ∧ n = used := by
  cases rest <;> simp only [judge] at h <;> split at h <;> cases h
  all_goals exact ⟨rfl, rfl⟩

theorem opening_of_opens (h : Opens b) : isOpening b = true ∧ isBlank b = false := by
  rcases h with rfl | rfl | rfl <;> decide

theorem opens_of_isOpening (h : isOpening b) : Opens b := by
  simpa [isOpening, Opens, or_assoc] using h

theorem isOpening_numeric (h : isNumeric b) : isOpening b = false := by
  simp only [isOpening, Bool.or_eq_false_iff, beq_eq_false_iff_ne]
  exact ⟨⟨numeric_ne h (by decide), numeric_ne h (by decide)⟩, numeric_ne h (by decide)⟩

theorem isOpening_letter (h : isLetter b) : isOpening b = false := by
  simp only [isOpening, Bool.or_eq_false_iff, beq_eq_false_iff_ne]
  exact ⟨⟨letter_ne h (by decide), letter_ne h (by decide)⟩, letter_ne h (by decide)⟩

theorem scan_open (h : Reaches text r) : scan text = match r.finish with
    | .ok _ => .incomplete
    | .error reason => if reason.isEnd then .incomplete else .invalid := by
  unfold scan
  split
  · next blank =>
      have goes := advance_blanks Json.maxDepth (blank_of_skipBlanks blank)
      cases goes.symm.trans h
      rfl
  · rw [read_reaches_all h, Reader.run]
    cases ends : r.finish with
    | ok value => simp [judge, (finish_ok ends).1]
    | error reason => rfl

theorem scan_open_ne_complete {used : Nat} (h : Reaches text r) :
    scan text ≠ .complete value used := by
  rw [scan_open h]
  repeat' split
  all_goals simp

theorem open_invalid (h : Reaches text r) (invalid : scan text = .invalid) :
    r.finish = .error .numberOutOfRange := by
  rw [scan_open h] at invalid
  cases ends : r.finish with
  | ok value => simp [ends] at invalid
  | error reason =>
      rcases finish_error ends with isEnd | rfl
      · simp [ends, isEnd] at invalid
      · rfl

theorem scan_done (h : Reaches text r) (step : r.step Json.maxDepth b = .done value) :
    value.isNumber = false ∧ isBlank b = false ∧
    ∃ blanks first more, text ++ [b] = blanks ++ first :: more ∧ (∀ c ∈ blanks, isBlank c) ∧
      (Opens first ∨ Word (first :: more) value) ∧
      ∀ rest, scan (text ++ b :: rest) = judge first value (text.length + 1) rest := by
  have final := final_step Json.maxDepth (trace_of_advance h) b
  rw [step] at final
  obtain ⟨plain, solid, blanks, first, more, shape, blank, kind⟩ := final
  refine ⟨plain, solid, blanks, first, more, shape, blank, kind, fun rest => ?_⟩
  have begins : skipBlanks (text ++ b :: rest) = first :: (more ++ rest) := by
    rw [List.append_cons, shape, List.append_assoc, List.cons_append]
    refine skipBlanks_append blank ?_
    rcases kind with opens | word
    · exact (opening_of_opens opens).2
    · exact letter_solid (word_letters word first (by simp))
  simp only [scan, begins]
  rw [read_reaches h, Reader.run, step]
  simp only [List.length_append, List.length_cons]
  congr 1
  omega

theorem scan_doneBefore (h : Reaches text r) (step : r.step Json.maxDepth b = .doneBefore value)
    (rest : List UInt8) : scan (text ++ b :: rest) =
      if mayFollow b then .complete value.canonical text.length else .invalid := by
  have final := final_step Json.maxDepth (trace_of_advance h) b
  rw [step] at final
  obtain ⟨-, blanks, first, more, rfl, blank, numeric⟩ := final
  have begins : skipBlanks (blanks ++ first :: more ++ b :: rest) = first :: (more ++ b :: rest) := by
    rw [List.append_assoc, List.cons_append]
    exact skipBlanks_append blank (numeric_solid (numeric first (by simp)))
  simp only [scan, begins]
  rw [read_reaches h, Reader.run, step]
  simp only [judge, isOpening_numeric (numeric first (by simp)), Bool.false_or]
  congr 2
  simp only [List.length_append, List.length_cons]
  omega

theorem isEnd_refused {reason : SyntaxError} (h : Reaches text r)
    (step : (∃ back, r.step Json.maxDepth b = .refused reason back) ∨
      r.step Json.maxDepth b = .refusedBefore reason) : reason.isEnd = false := by
  have final := final_step Json.maxDepth (trace_of_advance h) b
  rcases step with ⟨back, step⟩ | step
  all_goals rw [step] at final; exact final

theorem scan_refused {reason : SyntaxError} (h : Reaches text r)
    (step : (∃ back, r.step Json.maxDepth b = .refused reason back) ∨
      r.step Json.maxDepth b = .refusedBefore reason) (rest : List UInt8) :
    scan (text ++ b :: rest) = .invalid := by
  have isEnd := isEnd_refused h step
  have stop : Stops Json.maxDepth r b := by
    intro next more
    rcases step with ⟨back, step⟩ | step
    all_goals rw [step] at more; cases more
  unfold scan
  split
  · next blank => exact absurd blank (skipBlanks_ne_nil h stop)
  · rw [read_reaches h, Reader.run]
    rcases step with ⟨back, step⟩ | step <;> simp [step, isEnd]

theorem refused_for_good {reason : SyntaxError} (h : Reaches text r)
    (step : (∃ back, r.step Json.maxDepth b = .refused reason back) ∨
      r.step Json.maxDepth b = .refusedBefore reason) :
    ∃ e, e.category ≠ .truncated ∧ ∀ rest, scan (text ++ b :: rest) = .invalid ∧
      Json.parse (text ++ b :: rest) = .error e := by
  have isEnd := isEnd_refused h step
  have scans := scan_refused h step
  rcases step with ⟨back, step⟩ | step
  · exact ⟨_, by simp [category_toError, isEnd], fun rest => ⟨scans rest, parse_refused h step rest⟩⟩
  · exact ⟨_, by simp [category_toError, isEnd], fun rest =>
      ⟨scans rest, parse_refusedBefore h step rest⟩⟩

theorem open_or_stopped (input : List UInt8) : (∃ r, Reaches input r) ∨
    ∃ text b rest r, input = text ++ b :: rest ∧ Reaches text r ∧
      ((∃ tree, r.step Json.maxDepth b = .done tree) ∨
        (∃ tree, r.step Json.maxDepth b = .doneBefore tree) ∨
        ∃ e, e.category ≠ .truncated ∧ ∀ rest, scan (text ++ b :: rest) = .invalid ∧
          Json.parse (text ++ b :: rest) = .error e) := by
  rcases advance_or_stop Json.maxDepth .start input with goes | ⟨text, b, rest, r, rfl, goes, stop⟩
  · exact .inl goes
  · refine .inr ⟨text, b, rest, r, rfl, goes, ?_⟩
    cases step : r.step Json.maxDepth b with
    | more next => exact absurd step (stop next)
    | done tree => exact .inl ⟨tree, rfl⟩
    | doneBefore tree => exact .inr (.inl ⟨tree, rfl⟩)
    | refused reason back => exact .inr (.inr (refused_for_good goes (.inl ⟨back, step⟩)))
    | refusedBefore reason => exact .inr (.inr (refused_for_good goes (.inr step)))

theorem isNumber_canonical (tree : Json) : tree.canonical.isNumber = tree.isNumber := by
  cases tree <;> simp [Json.canonical, Json.isNumber]

theorem parse_of_invalid {input : List UInt8} (h : scan input = .invalid) :
    ∃ e, Json.parse input = .error e ∧ e.category ≠ .truncated := by
  unfold scan at h
  split at h
  · cases h
  · split at h
    · next value rest read =>
        cases rest with
        | nil => simp only [judge] at h; split at h <;> cases h
        | cons c rest =>
            simp only [judge] at h
            split at h
            · cases h
            · next follow =>
                have solid : isBlank c = false := by
                  simp only [mayFollow, Bool.or_eq_true, not_or, Bool.not_eq_true] at follow
                  exact follow.2.1.1.1.1.1
                refine ⟨Fault.toError input ⟨.trailingCharacters, rest.length, 0⟩, ?_, ?_⟩
                · simp [Json.parse, read, Json.trailing?, skipBlanks, solid]
                · simp [category_toError, SyntaxError.isEnd]
    · next fault read =>
        refine ⟨_, parse_of_read_error read, ?_⟩
        rw [Ne, category_toError]
        split at h
        · cases h
        · assumption

theorem trailing_reason {fault : Fault} (h : Json.trailing? rest = some fault) :
    fault.reason = .trailingCharacters ∧ rest ≠ [] := by
  unfold Json.trailing? at h
  split at h
  · cases h
  · next unread begins =>
      cases h
      exact ⟨rfl, fun none => by simp [none, skipBlanks] at begins⟩

theorem solid_of_not_mayFollow {c : UInt8} (h : mayFollow c = false) : isBlank c = false := by
  simp only [mayFollow, Bool.or_eq_false_iff] at h
  exact h.1.1.1.1.1

theorem trailing_for_good (text : List UInt8) {c : UInt8} {tree : Json} (solid : isBlank c = false)
    (read : ∀ rest, Json.read Json.maxDepth (text ++ c :: rest) = .ok (tree, c :: rest)) :
    ∃ e, e.category ≠ .truncated ∧ ∀ rest, Json.parse (text ++ c :: rest) = .error e := by
  refine ⟨Fault.toError (text ++ [c]) ⟨.trailingCharacters, 0, 0⟩, ?_, fun rest => ?_⟩
  · simp [category_toError, SyntaxError.isEnd]
  · rw [← toError_append (text ++ [c]) rest, List.append_assoc, List.singleton_append]
    simp [Json.parse, read, Json.trailing?, skipBlanks, solid]

theorem ne_of_invalid {input : List UInt8} (h : scan input = .invalid) : input ≠ [] := by
  rintro rfl
  cases h

theorem invalid_for_good {input : List UInt8} (h : scan input = .invalid) : (∃ r, Reaches input r) ∨
    ∃ e, e.category ≠ .truncated ∧ ∀ more, scan (input ++ more) = .invalid ∧
      Json.parse (input ++ more) = .error e := by
  rcases open_or_stopped input with goes | ⟨text, b, rest, r, rfl, goes, stop⟩
  · exact .inl goes
  · refine .inr ?_
    rcases stop with ⟨tree, step⟩ | ⟨tree, step⟩ | ⟨e, settled, refused⟩
    · obtain ⟨plain, -, blanks, first, begin, -, -, -, verdict⟩ := scan_done goes step
      rw [verdict] at h
      cases rest with
      | nil => simp [judge, plain] at h
      | cons c rest =>
          have stuck : isOpening first = false ∧ mayFollow c = false := by simpa [judge] using h
          obtain ⟨e, settled, trailing⟩ := trailing_for_good (text ++ [b])
            (solid_of_not_mayFollow stuck.2) fun rest => by simpa using read_done goes step (c :: rest)
          refine ⟨e, settled, fun more => ⟨?_, by simpa using trailing (rest ++ more)⟩⟩
          simpa [judge, stuck] using verdict (c :: rest ++ more)
    · rw [scan_doneBefore goes step] at h
      have stuck : mayFollow b = false := by simpa using h
      obtain ⟨e, settled, trailing⟩ := trailing_for_good text (solid_of_not_mayFollow stuck)
        (read_doneBefore goes step)
      refine ⟨e, settled, fun more => ⟨?_, by simpa using trailing (rest ++ more)⟩⟩
      simpa [stuck] using scan_doneBefore goes step (rest ++ more)
    · exact ⟨e, settled, fun more => by simpa using refused (rest ++ more)⟩

theorem incomplete_iff {input : List UInt8} {e : JsonError} (h : Json.parse input = .error e) :
    scan input = .incomplete ↔ e.category = .truncated := by
  unfold scan
  split
  · next blank =>
      have read := read_reaches_all (advance_blanks Json.maxDepth (blank_of_skipBlanks blank))
      rw [parse_of_read_error read] at h
      cases h
      simp [category_toError, SyntaxError.isEnd]
  · cases read : Json.read Json.maxDepth input with
    | error fault =>
        rw [parse_of_read_error read] at h
        cases h
        rw [category_toError]
        cases isEnd : fault.reason.isEnd <;> simp [isEnd]
    | ok result =>
        obtain ⟨value, rest⟩ := result
        simp only [Json.parse, read] at h
        split at h
        · next fault found =>
            cases h
            obtain ⟨reason, ne⟩ := trailing_reason found
            obtain ⟨c, rest, rfl⟩ := List.exists_cons_of_ne_nil ne
            rw [category_toError, reason]
            simp only [judge]
            split <;> simp [SyntaxError.isEnd]
        · cases h

theorem reaches_of_incomplete {input : List UInt8} (h : scan input = .incomplete) :
    ∃ r, Reaches input r := by
  rcases open_or_stopped input with goes | ⟨text, b, rest, r, rfl, goes, stop⟩
  · exact goes
  · exfalso
    rcases stop with ⟨tree, step⟩ | ⟨tree, step⟩ | ⟨e, -, refused⟩
    · obtain ⟨plain, -, blanks, first, more, -, -, -, verdict⟩ := scan_done goes step
      exact judge_settled plain (verdict rest ▸ h)
    · rw [scan_doneBefore goes step] at h
      split at h <;> cases h
    · rw [(refused rest).1] at h
      cases h

/-- The text stands for the value, and no blanks come after it. -/
def Denotes (text : List UInt8) (value : Json) : Prop :=
  Json.parse text = .ok value ∧ ∀ b ∈ text.getLast?, isBlank b = false

theorem denotes_done {tree : Json} (h : Reaches text r)
    (step : r.step Json.maxDepth b = .done tree) : Denotes (text ++ [b]) tree.canonical := by
  constructor
  · simp [Json.parse, read_reaches h, Reader.run, step, Json.trailing?, skipBlanks]
  · simp [(scan_done h step).2.1]

theorem denotes_open {tree : Json} (h : Reaches text r) (ends : r.finish = .ok tree) :
    Denotes text tree.canonical := by
  constructor
  · simp [Json.parse, read_reaches_all h, Reader.run, ends, Json.trailing?, skipBlanks]
  · obtain ⟨blanks, first, more, rfl, -, numeric⟩ := solid_of_advance h ends
    intro b last
    have last : b ∈ (first :: more).getLast? := by simpa [List.getLast?_cons] using last
    exact numeric_solid (numeric b (List.mem_of_getLast? last))

def Ended (text : List UInt8) (value : Json) : Prop :=
  (∃ front b r tree, text = front ++ [b] ∧ Reaches front r ∧
    r.step Json.maxDepth b = .done tree ∧ value = tree.canonical) ∨
  ∃ r tree, Reaches text r ∧ r.finish = .ok tree ∧ value = tree.canonical

theorem denotes_of_ended (h : Ended text value) : Denotes text value := by
  rcases h with ⟨front, b, r, tree, rfl, goes, step, rfl⟩ | ⟨r, tree, goes, ends, rfl⟩
  · exact denotes_done goes step
  · exact denotes_open goes ends

theorem denotes_of_read {tree : Json} (h : Json.read Json.maxDepth text = .ok (tree, [])) :
    Denotes text tree.canonical := by
  rcases open_or_stopped text with ⟨r, goes⟩ | ⟨front, b, rest, r, rfl, goes, stop⟩
  · rw [read_reaches_all goes, Reader.run] at h
    cases ends : r.finish with
    | error reason => rw [ends] at h; cases h
    | ok value =>
        rw [ends] at h
        cases h
        exact denotes_open goes ends
  · rcases stop with ⟨value, step⟩ | ⟨value, step⟩ | ⟨e, -, refused⟩
    · cases (read_done goes step rest).symm.trans h
      exact denotes_done goes step
    · cases (read_doneBefore goes step rest).symm.trans h
    · have parse := (refused rest).2
      simp [Json.parse, h, Json.trailing?, skipBlanks] at parse

theorem parse_of_read {input : List UInt8} {tree : Json} (h : Json.parse input = .ok value)
    (read : Json.read Json.maxDepth input = .ok (tree, rest)) :
    value = tree.canonical ∧ ∀ c ∈ rest, isBlank c := by
  simp only [Json.parse, read, Json.trailing?] at h
  cases blank : skipBlanks rest with
  | nil =>
      rw [blank] at h
      exact ⟨(Except.ok.inj h).symm, blank_of_skipBlanks blank⟩
  | cons c rest => simp [blank] at h

theorem ended_of_parse {input : List UInt8} (h : Json.parse input = .ok value) :
    ∃ text rest, input = text ++ rest ∧ Ended text value ∧ ∀ c ∈ rest, isBlank c := by
  rcases open_or_stopped input with ⟨r, goes⟩ | ⟨text, b, rest, r, rfl, goes, stop⟩
  · have read := read_reaches_all goes
    rw [Reader.run] at read
    cases ends : r.finish with
    | error reason => simp [Json.parse, read, ends] at h
    | ok tree =>
        rw [ends] at read
        exact ⟨input, [], by simp, .inr ⟨r, tree, goes, ends, (parse_of_read h read).1⟩, by simp⟩
  · have read := read_reaches goes (b :: rest)
    rw [Reader.run] at read
    rcases stop with ⟨tree, step⟩ | ⟨tree, step⟩ | ⟨e, -, refused⟩
    · rw [step] at read
      obtain ⟨same, blank⟩ := parse_of_read h read
      exact ⟨text ++ [b], rest, by simp, .inl ⟨text, b, r, tree, rfl, goes, step, same⟩, blank⟩
    · rw [step] at read
      obtain ⟨same, blank⟩ := parse_of_read h read
      have ends := finish_of_doneBefore (trace_of_advance goes) step
      exact ⟨text, b :: rest, rfl, .inr ⟨r, tree, goes, ends, same⟩, blank⟩
    · rw [(refused rest).2] at h
      cases h

theorem ended_of_denotes (h : Denotes text value) : Ended text value := by
  obtain ⟨whole, tight⟩ := h
  obtain ⟨front, rest, rfl, ended, blank⟩ := ended_of_parse whole
  rcases List.eq_nil_or_concat rest with rfl | ⟨init, last, rfl⟩
  · simpa using ended
  · have solid := tight last (by simp)
    rw [blank last (by simp)] at solid
    cases solid

theorem open_of_number (denotes : Denotes text value) (number : value.isNumber) :
    ∃ r tree, Reaches text r ∧ r.finish = .ok tree ∧ value = tree.canonical := by
  rcases ended_of_denotes denotes with ⟨front, b, r, tree, rfl, goes, step, rfl⟩ | ended
  · rw [isNumber_canonical, (scan_done goes step).1] at number
    cases number
  · exact ended

theorem number_ends_before (denotes : Denotes text value) (number : value.isNumber) (opens : isOpening b) :
    ∃ r tree, Reaches text r ∧ r.finish = .ok tree ∧ value = tree.canonical ∧
      r.step Json.maxDepth b = .doneBefore tree := by
  obtain ⟨r, tree, goes, ends, rfl⟩ := open_of_number denotes number
  have other : isNumeric b = false := by
    refine Bool.of_not_eq_true fun numeric => ?_
    cases (isOpening_numeric numeric).symm.trans opens
  exact ⟨r, tree, goes, ends, rfl, doneBefore_of_finish ends other⟩

theorem parse_number_opening (denotes : Denotes text value) (number : value.isNumber) (opens : isOpening b) :
    ∃ e, e.category ≠ .truncated ∧ ∀ rest, Json.parse (text ++ b :: rest) = .error e := by
  obtain ⟨r, tree, goes, -, -, step⟩ := number_ends_before denotes number opens
  exact trailing_for_good text (opening_of_opens (opens_of_isOpening opens)).2 (read_doneBefore goes step)

theorem denotes_of_scan {input : List UInt8} {used : Nat} (h : scan input = .complete value used) :
    used ≤ input.length ∧ Denotes (input.take used) value ∧
      (value.isNumber → ∃ b, input[used]? = some b ∧ mayFollow b) := by
  rcases open_or_stopped input with ⟨r, goes⟩ | ⟨text, b, rest, r, rfl, goes, stop⟩
  · exact absurd h (scan_open_ne_complete goes)
  · rcases stop with ⟨tree, step⟩ | ⟨tree, step⟩ | ⟨e, -, refused⟩
    · obtain ⟨plain, -, blanks, first, more, -, -, -, verdict⟩ := scan_done goes step
      rw [verdict] at h
      obtain ⟨rfl, rfl⟩ := judge_complete h
      refine ⟨by simp, ?_, fun number => ?_⟩
      · rw [List.take_length_add_append]
        exact denotes_done goes step
      · rw [isNumber_canonical, plain] at number
        cases number
    · rw [scan_doneBefore goes step] at h
      split at h
      · next follow =>
          cases h
          refine ⟨by simp, ?_, fun _ => ⟨b, by simp, follow⟩⟩
          rw [List.take_left]
          exact denotes_open goes (finish_of_doneBefore (trace_of_advance goes) step)
      · cases h
    · rw [(refused rest).1] at h
      cases h

end SocketRpc.Proofs.Framing
