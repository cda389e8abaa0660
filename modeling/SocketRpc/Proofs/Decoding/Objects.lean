import SocketRpc.Decoder.Record
import SocketRpc.Proofs.Json.Nesting

namespace SocketRpc.Proofs.Decoding
open SocketRpc.Json SocketRpc.Proofs.Json Ascii

variable {room : Nat} {b : UInt8} {input rest mid : List UInt8} {tree : Json} {key : String}
variable {stack : List Frame} {result : Json × List UInt8}

theorem readColon_ok : Decoder.readColon input = .ok rest ↔ skipBlanks input = colon :: rest := by
  unfold Decoder.readColon
  split
  · next none => simp [none]
  · next b more some =>
      rw [some]
      split
      · next same => simp [eq_of_beq same]
      · next other =>
          refine ⟨nofun, fun same => absurd ?_ other⟩
          rw [(List.cons.inj same).1]
          rfl

theorem readColon_suffix (h : Decoder.readColon input = .ok rest) : rest <:+ input := by
  have skipped := readColon_ok.1 h
  exact (List.suffix_cons colon rest).trans (skipped ▸ skipBlanks_suffix input)

theorem readQuoted_ok :
    Decoder.readQuoted input = .ok (key, rest) ↔ Quoted.start.run input = .ok (key, rest) := by
  unfold Decoder.readQuoted
  split
  · next same => simp [same]
  · next error => simp [error]

theorem keyed_ok {found : Option String} :
    (Decoder.readQuoted input).map (fun (key, rest) => (some key, rest)) = .ok (found, rest) ↔
      ∃ key, found = some key ∧ Quoted.start.run input = .ok (key, rest) := by
  simp only [← readQuoted_ok]
  cases Decoder.readQuoted input with
  | error fault => exact ⟨nofun, nofun⟩
  | ok quoted =>
      constructor
      · intro same
        cases same
        exact ⟨quoted.1, rfl, rfl⟩
      · rintro ⟨key, rfl, same⟩
        cases same
        rfl

theorem nextKey_closing {first : Bool} :
    Record.nextKey first input = .ok (none, rest) ↔ skipBlanks input = closeBrace :: rest := by
  have keyed {input rest : List UInt8} :
      (Decoder.readQuoted input).map (fun (key, rest) => (some key, rest)) ≠ .ok (none, rest) := by
    intro same
    obtain ⟨key, absurd, -⟩ := keyed_ok.1 same
    cases absurd
  unfold Record.nextKey
  split
  · next none => simp [none]
  · next b more skip =>
      rw [skip]
      by_cases closing : b = closeBrace
      · subst closing
        simp
      · simp only [beq_eq_false_iff_ne.2 closing, Bool.false_eq_true, if_false, List.cons.injEq, closing,
          false_and, iff_false]
        repeat' split
        all_goals simp [keyed]

theorem firstKey_ok : Record.nextKey true input = .ok (some key, rest) ↔
    ∃ text, skipBlanks input = quote :: text ∧ Quoted.start.run text = .ok (key, rest) := by
  unfold Record.nextKey
  split
  · next none => simp [none]
  · next b more skip =>
      rw [skip]
      by_cases quoted : b = quote
      · subst quoted
        refine keyed_ok.trans ?_
        simp
      · have other : (b == quote) = false := beq_eq_false_iff_ne.2 quoted
        simp only [other, List.cons.injEq, quoted, false_and, exists_false, iff_false]
        split <;> simp

theorem keyed_shorter {found : Option String}
    (h : (Decoder.readQuoted input).map (fun (key, rest) => (some key, rest)) = .ok (found, rest)) :
    rest.length < (b :: input).length := by
  obtain ⟨key, -, read⟩ := keyed_ok.1 h
  exact Nat.lt_succ_of_le (quoted_suffix read).length_le

theorem nextKey_shorter {first : Bool} {found : Option String}
    (h : Record.nextKey first input = .ok (found, rest)) : rest.length < input.length := by
  have skipped := (skipBlanks_suffix input).length_le
  unfold Record.nextKey at h
  split at h
  · cases h
  · next b more skip =>
      rw [skip] at skipped
      split at h
      · cases h
        exact skipped
      split at h
      · split at h
        · exact Nat.lt_of_lt_of_le (keyed_shorter h) skipped
        · cases h
      split at h
      · have skippedMore := (skipBlanks_suffix more).length_le
        split at h
        · cases h
        · next c text skipMore =>
            rw [skipMore] at skippedMore
            split at h
            · have shorter := Nat.lt_of_lt_of_le (keyed_shorter h) skippedMore
              exact Nat.lt_of_lt_of_le shorter (Nat.le_trans (Nat.le_succ _) skipped)
            split at h <;> cases h
      · cases h

def keyDue (first : Bool) (read : List (String × Json)) : Mode :=
  if first then .firstKey else .afterMember read

def AfterKey (room : Nat) (read : List (String × Json)) (stack : List Frame)
    (result : Json × List UInt8) : Except DecodeFault (Option String × List UInt8) → Prop
  | .error _ => False
  | .ok (none, rest) => resume room (.object read.reverse) stack rest = .ok result
  | .ok (some key, rest) => Reader.run room ⟨.colon read key, stack⟩ rest = .ok result

theorem run_keyed (read : List (String × Json)) (stack : List Frame) (input : List UInt8) :
    Reader.run room ⟨.key read .start, stack⟩ input = .ok result ↔ AfterKey room read stack result
      ((Decoder.readQuoted input).map fun (key, rest) => (some key, rest)) := by
  rw [run_keyText, Decoder.readQuoted]
  cases Quoted.start.run input with
  | error fault => exact ⟨nofun, False.elim⟩
  | ok quoted => exact .rfl

theorem run_firstKey (stack : List Frame) (input : List UInt8) :
    Reader.run room ⟨.firstKey, stack⟩ input = .ok result ↔
      AfterKey room [] stack result (Record.nextKey true input) := by
  rw [← run_skip fun b blank => by simp [Reader.step, blank]]
  unfold Record.nextKey
  cases skip : skipBlanks input with
  | nil =>
      refine iff_of_false ?_ id
      intro read
      cases read
  | cons b more =>
      have solid := skipBlanks_solid skip
      by_cases quoted : b = quote
      · subst quoted
        exact run_keyed [] stack more
      by_cases closing : b = closeBrace
      · subst closing
        have closed : Reader.run room ⟨.firstKey, stack⟩ (closeBrace :: more) =
            resume room (.object []) stack more := run_settle rfl
        rw [closed]
        exact .rfl
      · simp [Reader.run, Reader.step, solid, quoted, closing, AfterKey]

theorem run_afterMember (read : List (String × Json)) (stack : List Frame) (input : List UInt8) :
    Reader.run room ⟨.afterMember read, stack⟩ input = .ok result ↔
      AfterKey room read stack result (Record.nextKey false input) := by
  rw [← run_skip fun b blank => by simp [Reader.step, Reader.stepAfterMember, blank]]
  unfold Record.nextKey
  cases skip : skipBlanks input with
  | nil =>
      refine iff_of_false ?_ id
      intro read
      cases read
  | cons b more =>
      have solid := skipBlanks_solid skip
      by_cases closing : b = closeBrace
      · subst closing
        have closed : Reader.run room ⟨.afterMember read, stack⟩ (closeBrace :: more) =
            resume room (.object read.reverse) stack more := run_settle rfl
        rw [closed]
        exact .rfl
      by_cases next : b = comma
      · subst next
        -- A key is due now, and a closing brace is not.
        have moved : Reader.run room ⟨.afterMember read, stack⟩ (comma :: more) =
            Reader.run room ⟨.nextKey read, stack⟩ more := run_more rfl
        rw [moved, ← run_skip fun b blank => by simp [Reader.step, blank]]
        simp only [beq_eq_false_iff_ne.2 closing, Bool.false_eq_true, if_false, beq_self_eq_true, if_true]
        cases skip : skipBlanks more with
        | nil =>
            refine iff_of_false ?_ id
            intro read
            cases read
        | cons b rest =>
            have solid := skipBlanks_solid skip
            by_cases quoted : b = quote
            · subst quoted
              exact run_keyed read stack rest
            by_cases closing : b = closeBrace
            · subst closing
              refine iff_of_false ?_ id
              intro read
              cases read
            · simp [Reader.run, Reader.step, solid, quoted, closing, AfterKey]
      · simp [Reader.run, Reader.step, Reader.stepAfterMember, solid, closing, next, AfterKey]

theorem run_keyDue {first : Bool} {read : List (String × Json)} (fresh : first → read = [])
    (stack : List Frame) (input : List UInt8) :
    Reader.run room ⟨keyDue first read, stack⟩ input = .ok result ↔
      AfterKey room read stack result (Record.nextKey first input) := by
  cases first with
  | true =>
      obtain rfl := fresh rfl
      exact run_firstKey stack input
  | false => exact run_afterMember read stack input

theorem run_colon (read : List (String × Json)) (key : String) (stack : List Frame) (input : List UInt8) :
    Reader.run room ⟨.colon read key, stack⟩ input = .ok result ↔ ∃ start,
      Decoder.readColon input = .ok start ∧
        Reader.run room ⟨.value, .members read key :: stack⟩ start = .ok result := by
  simp only [readColon_ok]
  rw [← run_skip fun b blank => by simp [Reader.step, blank]]
  cases skip : skipBlanks input with
  | nil =>
      constructor
      · intro read
        cases read
      · rintro ⟨_, due, -⟩
        cases due
  | cons b more =>
      by_cases due : b = colon
      · subst due
        rw [run_more rfl]
        constructor
        · intro read
          exact ⟨more, rfl, read⟩
        · rintro ⟨_, same, read⟩
          cases same
          exact read
      · have refused : Reader.step room ⟨.colon read key, stack⟩ b = .refused .expectedColon 0 := by
          simp [Reader.step, skipBlanks_solid skip, due]
        rw [Reader.run, refused]
        constructor
        · intro read
          cases read
        · rintro ⟨_, same, -⟩
          exact absurd (List.cons.inj same).1 due

inductive Members (room : Nat) : Bool → List UInt8 → List (String × Json) → List UInt8 → Prop
  | close {first : Bool} {input rest : List UInt8} (ends : Record.nextKey first input = .ok (none, rest)) :
      Members room first input [] rest
  | more {first : Bool} {input mid start left rest : List UInt8} {key : String} {value : Json}
      {members : List (String × Json)} (next : Record.nextKey first input = .ok (some key, mid))
      (colon : Decoder.readColon mid = .ok start) (read : Json.read room start = .ok (value, left))
      (later : Members room false left members rest) :
      Members room first input ((key, value) :: members) rest

theorem members_of_run {first : Bool} {read : List (String × Json)} {input : List UInt8}
    (fresh : first → read = [])
    (h : Reader.run (room + 1) ⟨keyDue first read, []⟩ input = .ok (tree, rest)) :
    ∃ members, tree = .object (read.reverse ++ members) ∧ Members room first input members rest := by
  have after := (run_keyDue fresh [] input).1 h
  match due : Record.nextKey first input with
  | .error fault => rw [due] at after; exact after.elim
  | .ok (none, left) =>
      rw [due] at after
      cases after
      exact ⟨[], by rw [List.append_nil], .close due⟩
  | .ok (some key, mid) =>
      rw [due] at after
      obtain ⟨start, colon, after⟩ := (run_colon read key [] mid).1 after
      obtain ⟨value, left, readValue, after⟩ := run_value_ok.1 after
      have shorter : left.length < input.length := calc
        left.length ≤ start.length := (run_suffix readValue).length_le
        _ ≤ mid.length := (readColon_suffix colon).length_le
        _ < input.length := nextKey_shorter due
      have begun : false → (key, value) :: read = [] := nofun
      obtain ⟨members, same, later⟩ := members_of_run begun after
      rw [List.reverse_cons, List.append_assoc] at same
      exact ⟨(key, value) :: members, same, .more due colon readValue later⟩
termination_by input.length

theorem run_of_members {first : Bool} {members : List (String × Json)}
    (h : Members room first input members rest) {read : List (String × Json)} (fresh : first → read = []) :
    Reader.run (room + 1) ⟨keyDue first read, []⟩ input = .ok (.object (read.reverse ++ members), rest) := by
  induction h generalizing read with
  | close due =>
      rw [run_keyDue fresh, due, List.append_nil]
      rfl
  | @more first input mid start left rest key value members due colon readValue later ih =>
      rw [run_keyDue fresh, due]
      refine (run_colon read key [] mid).2 ⟨start, colon, ?_⟩
      refine run_value_ok.2 ⟨value, left, readValue, ?_⟩
      have after := @ih ((key, value) :: read) nofun
      rw [List.reverse_cons, List.append_assoc] at after
      exact after

theorem read_object : Json.read (room + 1) (openBrace :: input) = .ok (tree, rest) ↔
    ∃ members, tree = .object members ∧ Members room true input members rest := by
  have opened : Json.read (room + 1) (openBrace :: input) =
      Reader.run (room + 1) ⟨keyDue true [], []⟩ input := run_more (open_object (Nat.succ_pos room))
  rw [opened]
  constructor
  · exact members_of_run fun _ => rfl
  · rintro ⟨members, rfl, found⟩
    exact run_of_members found fun _ => rfl

end SocketRpc.Proofs.Decoding
