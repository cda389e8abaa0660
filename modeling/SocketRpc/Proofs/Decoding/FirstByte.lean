import SocketRpc.Proofs.Decoding.Arrays
import SocketRpc.Proofs.Decoding.Objects

namespace SocketRpc.Proofs.Decoding
open SocketRpc.Json SocketRpc.Proofs.Json Ascii

variable {room : Nat} {b : UInt8} {input rest : List UInt8} {tree : Json}

structure FirstByte (b : UInt8) (tree : Json) : Prop where
  null : b = byte 'n' ↔ tree = .null
  string : b = quote ↔ ∃ s, tree = .string s
  array : b = openBracket ↔ ∃ items, tree = .array items
  object : b = openBrace ↔ ∃ members, tree = .object members

theorem firstByte_string (s : String) : FirstByte quote (.string s) where
  null := iff_of_false (by decide) nofun
  string := iff_of_true rfl ⟨s, rfl⟩
  array := iff_of_false (by decide) nofun
  object := iff_of_false (by decide) nofun

theorem firstByte_array (items : List Json) : FirstByte openBracket (.array items) where
  null := iff_of_false (by decide) nofun
  string := iff_of_false (by decide) nofun
  array := iff_of_true rfl ⟨items, rfl⟩
  object := iff_of_false (by decide) nofun

theorem firstByte_object (members : List (String × Json)) : FirstByte openBrace (.object members) where
  null := iff_of_false (by decide) nofun
  string := iff_of_false (by decide) nofun
  array := iff_of_false (by decide) nofun
  object := iff_of_true rfl ⟨members, rfl⟩

theorem firstByte_number (numeric : isNumeric b) (n : Number) : FirstByte b (.number n) where
  null := iff_of_false (numeric_ne numeric rfl) nofun
  string := iff_of_false (numeric_ne numeric rfl) nofun
  array := iff_of_false (numeric_ne numeric rfl) nofun
  object := iff_of_false (numeric_ne numeric rfl) nofun

theorem firstByte_word {due : List UInt8} (word : Word (b :: due) tree) : FirstByte b tree := by
  have letter : isLetter b := word_letters word b List.mem_cons_self
  have string : b ≠ quote := letter_ne letter rfl
  have array : b ≠ openBracket := letter_ne letter rfl
  have object : b ≠ openBrace := letter_ne letter rfl
  generalize text : b :: due = bytes at word
  cases word with
  | null =>
      cases text
      exact ⟨iff_of_true rfl rfl, iff_of_false string nofun, iff_of_false array nofun,
        iff_of_false object nofun⟩
  | true | false =>
      cases text
      exact ⟨iff_of_false (by decide) nofun, iff_of_false string nofun, iff_of_false array nofun,
        iff_of_false object nofun⟩

theorem run_number {numeral : Numeral} (h : Reader.run room ⟨.number numeral, []⟩ input = .ok (tree, rest)) :
    ∃ n, tree = .number n := by
  induction input generalizing numeral with
  | nil =>
      simp only [Reader.run, Reader.finish] at h
      cases value : numeral.value with
      | error reason => rw [value] at h; cases h
      | ok n => rw [value] at h; cases h; exact ⟨n, rfl⟩
  | cons b input ih =>
      simp only [Reader.run, Reader.step, Reader.stepNumber] at h
      cases step : numeral.step b with
      | more next => rw [step] at h; exact ih h
      | refused reason => rw [step] at h; cases h
      | ended =>
          rw [step] at h
          cases value : numeral.value with
          | error reason => rw [value] at h; cases h
          | ok n => rw [value] at h; cases h; exact ⟨n, rfl⟩

theorem run_due {due : List UInt8} {value : Json}
    (h : Reader.run room ⟨.literal due value, []⟩ input = .ok (tree, rest)) : tree = value := by
  induction input generalizing due with
  | nil => cases h
  | cons b input ih =>
      rcases due with _ | ⟨first, _ | ⟨second, due⟩⟩
      · cases h
        rfl
      all_goals
        by_cases same : b = first
        · simp only [Reader.run, Reader.step, same, beq_self_eq_true, if_true, Reader.settle] at h
          first
            | exact ih h
            | cases h; rfl
        · simp only [Reader.run, Reader.step, beq_eq_false_iff_ne.2 same, Bool.false_eq_true, if_false] at h
          cases h

theorem firstByte_of_read (solid : isBlank b = false) (h : Json.read room (b :: input) = .ok (tree, rest)) :
    FirstByte b tree := by
  by_cases list : b = openBracket
  · subst list
    cases room with
    | zero => cases h
    | succ room =>
        obtain ⟨items, rfl, -⟩ := read_array.1 h
        exact firstByte_array items
  by_cases object : b = openBrace
  · subst object
    cases room with
    | zero => cases h
    | succ room =>
        obtain ⟨members, rfl, -⟩ := read_object.1 h
        exact firstByte_object members
  have step : Reader.start.step room b = Reader.begin room [] b := by
    simp [Reader.step, Reader.start, solid]
  have begins := begin_begins room [] b
  rw [Json.read, Reader.run, step] at h
  generalize Reader.begin room [] b = move at h begins
  cases begins with
  | string same =>
      subst same
      have text : Json.read room (quote :: input) = .ok (tree, rest) := (run_more rfl).trans h
      obtain ⟨s, rfl, -⟩ := read_quote.1 text
      exact firstByte_string s
  | list same => exact absurd same list
  | object same => exact absurd same object
  | number numeric =>
      obtain ⟨n, rfl⟩ := run_number h
      exact firstByte_number numeric n
  | literal going word =>
      obtain rfl := run_due h
      exact firstByte_word word
  | refused notEnd => cases h

end SocketRpc.Proofs.Decoding
