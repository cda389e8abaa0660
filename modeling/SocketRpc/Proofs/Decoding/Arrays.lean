import SocketRpc.Decoder.Record
import SocketRpc.Proofs.Json.Nesting

namespace SocketRpc.Proofs.Decoding
open SocketRpc.Json SocketRpc.Proofs.Json Ascii

variable {room : Nat} {input rest mid : List UInt8} {tree : Json}
variable {stack : List Frame} {result : Json × List UInt8}

theorem closeItems_ok : Record.closeItems input = .ok rest ↔ skipBlanks input = closeBracket :: rest := by
  unfold Record.closeItems
  split
  · next none => simp [none]
  · next b more some =>
      rw [some]
      split
      · next same => simp [eq_of_beq same]
      · next other =>
          refine ⟨fun h => ?_, fun same => absurd ?_ other⟩
          · repeat' split at h
            all_goals cases h
          · rw [(List.cons.inj same).1]
            rfl

theorem nextItem_closing {first : Bool} (ends : skipBlanks input = closeBracket :: rest) :
    Record.nextItem first input = .ok (false, closeBracket :: rest) := by
  unfold Record.nextItem
  rw [ends]
  rfl

theorem nextItem_end {first : Bool} (h : Record.nextItem first input = .ok (false, rest)) :
    ∃ left, rest = closeBracket :: left ∧ skipBlanks input = closeBracket :: left := by
  unfold Record.nextItem at h
  split at h
  · cases h
  · next b more skip =>
      split at h
      · next closing =>
          cases h
          exact ⟨more, by rw [eq_of_beq closing], by rw [skip, eq_of_beq closing]⟩
      split at h
      · cases h
      split at h
      · repeat' split at h
        all_goals cases h
      · cases h

theorem nextItem_suffix {first due : Bool} (h : Record.nextItem first input = .ok (due, rest)) :
    rest <:+ input := by
  have skipped := skipBlanks_suffix input
  unfold Record.nextItem at h
  split at h
  · cases h
  · next b more skip =>
      rw [skip] at skipped
      split at h
      · cases h
        exact skipped
      split at h
      · cases h
        exact skipped
      split at h
      · have skippedMore := skipBlanks_suffix more
        split at h
        · cases h
        · next c text skipMore =>
            rw [skipMore] at skippedMore
            split at h
            · cases h
            · cases h
              exact (skippedMore.trans (List.suffix_cons b more)).trans skipped
      · cases h

def itemDue (first : Bool) (read : List Json) : Mode :=
  if first then .firstItem else .afterItem read

def AfterItem (room : Nat) (read : List Json) (stack : List Frame) (result : Json × List UInt8) :
    Except DecodeFault (Bool × List UInt8) → Prop
  | .error _ => False
  | .ok (true, rest) => Reader.run room ⟨.value, .items read :: stack⟩ rest = .ok result
  | .ok (false, rest) => ∃ left, rest = closeBracket :: left ∧
      resume room (.array read.reverse) stack left = .ok result

theorem afterItem_closing (read : List Json) {left : List UInt8} :
    AfterItem room read stack result (.ok (false, closeBracket :: left)) ↔
      resume room (.array read.reverse) stack left = .ok result := by
  constructor
  · rintro ⟨_, same, ends⟩
    cases same
    exact ends
  · intro ends
    exact ⟨left, rfl, ends⟩

theorem run_firstItem (stack : List Frame) (input : List UInt8) :
    Reader.run room ⟨.firstItem, stack⟩ input = .ok result ↔
      AfterItem room [] stack result (Record.nextItem true input) := by
  rw [← run_skip fun b blank => by simp [Reader.step, blank]]
  unfold Record.nextItem
  cases skip : skipBlanks input with
  | nil =>
      refine iff_of_false ?_ id
      intro read
      cases read
  | cons b more =>
      have solid := skipBlanks_solid skip
      by_cases ends : b = closeBracket
      · subst ends
        have closed : Reader.run room ⟨.firstItem, stack⟩ (closeBracket :: more) =
            resume room (.array []) stack more := run_settle rfl
        rw [closed]
        exact (afterItem_closing []).symm
      · have begun : Reader.run room ⟨.firstItem, stack⟩ (b :: more) =
            Reader.run room ⟨.value, .items [] :: stack⟩ (b :: more) := by
          simp only [Reader.run, Reader.step, solid]
          simp [ends]
        rw [begun]
        simp [ends, AfterItem]

theorem run_afterItem (read : List Json) (stack : List Frame) (input : List UInt8) :
    Reader.run room ⟨.afterItem read, stack⟩ input = .ok result ↔
      AfterItem room read stack result (Record.nextItem false input) := by
  rw [← run_skip fun b blank => by simp [Reader.step, Reader.stepAfterItem, blank]]
  unfold Record.nextItem
  cases skip : skipBlanks input with
  | nil =>
      refine iff_of_false ?_ id
      intro read
      cases read
  | cons b more =>
      have solid := skipBlanks_solid skip
      by_cases ends : b = closeBracket
      · subst ends
        have closed : Reader.run room ⟨.afterItem read, stack⟩ (closeBracket :: more) =
            resume room (.array read.reverse) stack more := run_settle rfl
        rw [closed]
        exact (afterItem_closing read).symm
      by_cases next : b = comma
      · subst next
        -- An item is due now, and a closing bracket is not.
        have moved : Reader.run room ⟨.afterItem read, stack⟩ (comma :: more) =
            Reader.run room ⟨.nextItem read, stack⟩ more := run_more rfl
        rw [moved, ← run_skip fun b blank => by simp [Reader.step, blank]]
        simp only [beq_eq_false_iff_ne.2 ends, Bool.false_eq_true, if_false, beq_self_eq_true, if_true]
        cases skip : skipBlanks more with
        | nil =>
            refine iff_of_false ?_ id
            intro read
            cases read
        | cons b rest =>
            have solid := skipBlanks_solid skip
            by_cases ends : b = closeBracket
            · subst ends
              refine iff_of_false ?_ id
              intro read
              cases read
            · have begun : Reader.run room ⟨.nextItem read, stack⟩ (b :: rest) =
                  Reader.run room ⟨.value, .items read :: stack⟩ (b :: rest) := by
                simp only [Reader.run, Reader.step, solid]
                simp [ends]
              rw [begun]
              simp [ends, AfterItem]
      · simp [Reader.run, Reader.step, Reader.stepAfterItem, solid, ends, next, AfterItem]

theorem run_itemDue {first : Bool} {read : List Json} (fresh : first → read = []) (stack : List Frame)
    (input : List UInt8) : Reader.run room ⟨itemDue first read, stack⟩ input = .ok result ↔
      AfterItem room read stack result (Record.nextItem first input) := by
  cases first with
  | true =>
      obtain rfl := fresh rfl
      exact run_firstItem stack input
  | false => exact run_afterItem read stack input

inductive Items (room : Nat) : Bool → List UInt8 → List Json → List UInt8 → Prop
  | close {first : Bool} {input rest : List UInt8} (ends : skipBlanks input = closeBracket :: rest) :
      Items room first input [] rest
  | more {first : Bool} {input mid left rest : List UInt8} {item : Json} {items : List Json}
      (due : Record.nextItem first input = .ok (true, mid)) (read : Json.read room mid = .ok (item, left))
      (later : Items room false left items rest) : Items room first input (item :: items) rest

theorem items_of_run {first : Bool} {read : List Json} {input : List UInt8} (fresh : first → read = [])
    (h : Reader.run (room + 1) ⟨itemDue first read, []⟩ input = .ok (tree, rest)) :
    ∃ items, tree = .array (read.reverse ++ items) ∧ Items room first input items rest := by
  have after := (run_itemDue fresh [] input).1 h
  match due : Record.nextItem first input with
  | .error fault => rw [due] at after; exact after.elim
  | .ok (false, mid) =>
      obtain ⟨_, rfl, ends⟩ := nextItem_end due
      rw [due] at after
      obtain ⟨left, closing, same⟩ := after
      cases closing
      cases same
      exact ⟨[], by rw [List.append_nil], .close ends⟩
  | .ok (true, mid) =>
      rw [due] at after
      obtain ⟨item, left, readItem, after⟩ := run_value_ok.1 after
      have shorter : left.length < input.length := calc
        left.length < mid.length := read_shorter readItem
        _ ≤ input.length := (nextItem_suffix due).length_le
      have begun : false → item :: read = [] := nofun
      obtain ⟨items, same, later⟩ := items_of_run begun after
      rw [List.reverse_cons, List.append_assoc] at same
      exact ⟨item :: items, same, .more due readItem later⟩
termination_by input.length

theorem run_of_items {first : Bool} {items : List Json} (h : Items room first input items rest)
    {read : List Json} (fresh : first → read = []) :
    Reader.run (room + 1) ⟨itemDue first read, []⟩ input = .ok (.array (read.reverse ++ items), rest) := by
  induction h generalizing read with
  | @close first input rest ends =>
      rw [run_itemDue fresh, nextItem_closing ends, List.append_nil]
      exact ⟨rest, rfl, rfl⟩
  | @more first input mid left rest item items due readItem later ih =>
      rw [run_itemDue fresh, due]
      refine run_value_ok.2 ⟨item, left, readItem, ?_⟩
      have after := @ih (item :: read) nofun
      rw [List.reverse_cons, List.append_assoc] at after
      exact after

theorem read_array : Json.read (room + 1) (openBracket :: input) = .ok (tree, rest) ↔
    ∃ items, tree = .array items ∧ Items room true input items rest := by
  have opened : Json.read (room + 1) (openBracket :: input) =
      Reader.run (room + 1) ⟨itemDue true [], []⟩ input := run_more (open_array (Nat.succ_pos room))
  rw [opened]
  constructor
  · exact items_of_run fun _ => rfl
  · rintro ⟨items, rfl, found⟩
    exact run_of_items found fun _ => rfl

end SocketRpc.Proofs.Decoding
