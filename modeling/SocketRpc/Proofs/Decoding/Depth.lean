import SocketRpc.Proofs.Decoding.Agreement
import SocketRpc.Proofs.Json.Writing

namespace SocketRpc.Proofs.Decoding
open SocketRpc.Json SocketRpc.Proofs.Json Ascii

variable {room : Nat} {input rest : List UInt8} {tree value : Json} {first : Bool}
variable {items : List Json} {members : List (String × Json)}

theorem solid_of_read (h : Json.read room input = .ok (tree, rest)) :
    ∃ b more, isBlank b = false ∧ Json.read room (b :: more) = .ok (tree, rest) := by
  rw [← read_skip] at h
  cases skip : skipBlanks input with
  | nil => rw [skip] at h; cases h
  | cons b more => exact ⟨b, more, skipBlanks_solid skip, skip ▸ h⟩

theorem items_of_read (h : Json.read room input = .ok (.array items, rest)) :
    ∃ inner start, room = inner + 1 ∧ Items inner true start items rest := by
  obtain ⟨b, more, solid, h⟩ := solid_of_read h
  obtain rfl : b = openBracket := (firstByte_of_read solid h).array.2 ⟨items, rfl⟩
  cases room with
  | zero => cases h
  | succ inner =>
      obtain ⟨_, same, found⟩ := read_array.1 h
      cases same
      exact ⟨inner, more, rfl, found⟩

theorem members_of_read (h : Json.read room input = .ok (.object members, rest)) :
    ∃ inner start, room = inner + 1 ∧ Members inner true start members rest := by
  obtain ⟨b, more, solid, h⟩ := solid_of_read h
  obtain rfl : b = openBrace := (firstByte_of_read solid h).object.2 ⟨members, rfl⟩
  cases room with
  | zero => cases h
  | succ inner =>
      obtain ⟨_, same, found⟩ := read_object.1 h
      cases same
      exact ⟨inner, more, rfl, found⟩

theorem items_read (h : Items room first input items rest) :
    ∀ item ∈ items, ∃ start left, Json.read room start = .ok (item, left) := by
  induction h with
  | close => exact nofun
  | more due read later ih => exact List.forall_mem_cons.2 ⟨⟨_, _, read⟩, ih⟩

theorem members_read (h : Members room first input members rest) :
    ∀ m ∈ members, ∃ start left, Json.read room start = .ok (m.2, left) := by
  induction h with
  | close => exact nofun
  | more next colon read later ih => exact List.forall_mem_cons.2 ⟨⟨_, _, read⟩, ih⟩

theorem depth_read (h : Json.read room input = .ok (tree, rest)) : tree.depth ≤ room := by
  induction tree using tree_induction generalizing room input rest with
  | array items ih =>
      -- Each item was read with room for one container less.
      obtain ⟨inner, start, rfl, found⟩ := items_of_read h
      refine Nat.succ_le_succ (depthItems_le.2 fun item member => ?_)
      obtain ⟨_, _, read⟩ := items_read found item member
      exact ih item member read
  | object members ih =>
      obtain ⟨inner, start, rfl, found⟩ := members_of_read h
      refine Nat.succ_le_succ (depthMembers_le.2 fun m member => ?_)
      obtain ⟨_, _, read⟩ := members_read found m member
      exact ih m member read
  | _ => exact Nat.zero_le room

theorem depth_parse (h : Json.parse input = .ok value) : value.depth ≤ maxDepth := by
  obtain ⟨tree, rest, read, -, rfl⟩ := parse_ok.1 h
  exact Nat.le_trans (depth_canonical tree) (depth_read read)

theorem canonical_parse (h : Json.parse input = .ok value) : value.canonical = value := by
  obtain ⟨tree, rest, -, -, rfl⟩ := parse_ok.1 h
  exact canonical_canonical tree

theorem parse_pretty (h : Json.parse input = .ok value) (integral : Integral value) :
    Json.parse (value.pretty ++ [newline]) = .ok value := by
  have shallow : value.depth + 0 ≤ maxDepth := depth_parse h
  have follows : ∀ b ∈ [newline].head?, isNumeric b = false := by
    rintro b ⟨⟩
    rfl
  have read : Json.read maxDepth (value.pretty ++ [newline]) = .ok (value, [newline]) :=
    (spells_pretty value integral).reads maxDepth [] [newline] shallow fun _ => follows
  exact parse_ok.2 ⟨value, [newline], read, rfl, (canonical_parse h).symm⟩

variable {more : Nat} {b : UInt8} {r : Reader} {stack : List Frame} {result : Json × List UInt8} {other : Json}

theorem begin_roomier (h : room ≤ more) (stack : List Frame) (b : UInt8) :
    Reader.begin room stack b = .refused .tooDeep 0 ∨
      Reader.begin more stack b = Reader.begin room stack b := by
  by_cases fits : stack.length < room
  · have fits' : stack.length < more := Nat.lt_of_lt_of_le fits h
    simp only [Reader.begin, if_pos fits, if_pos fits', or_true]
  by_cases opens : b = openBracket ∨ b = openBrace
  · apply Or.inl
    rcases opens with rfl | rfl <;> exact if_neg fits
  · obtain ⟨list, object⟩ := not_or.1 opens
    simp only [Reader.begin, beq_eq_false_iff_ne.2 list, beq_eq_false_iff_ne.2 object, Bool.false_eq_true,
      if_false, or_true]

theorem step_roomier (h : room ≤ more) (r : Reader) (b : UInt8) :
    r.step room b = .refused .tooDeep 0 ∨ r.step more b = r.step room b := by
  obtain ⟨mode, stack⟩ := r
  cases mode with
  | value =>
      simp only [Reader.step]
      split
      · exact .inr rfl
      · exact begin_roomier h stack b
  | firstItem =>
      simp only [Reader.step]
      repeat' split
      · exact .inr rfl
      · exact .inr rfl
      · exact begin_roomier h _ b
  | nextItem read =>
      simp only [Reader.step]
      repeat' split
      · exact .inr rfl
      · exact .inr rfl
      · exact begin_roomier h _ b
  | _ => exact .inr rfl

theorem run_roomier (h : room ≤ more) (ran : r.run room input = .ok result) : r.run more input = .ok result := by
  induction input generalizing r with
  | nil => exact ran
  | cons b input ih =>
      rw [Reader.run] at ran ⊢
      rcases step_roomier h r b with deep | same
      · rw [deep] at ran
        cases ran
      · rw [same]
        cases step : r.step room b with
        | more next => rw [step] at ran; exact ih ran
        | _ => rw [step] at ran; exact ran

theorem read_written (integral : Integral tree) :
    Json.read room tree.write = .ok (other, rest) ↔ tree.depth ≤ room ∧ other = tree ∧ rest = [] := by
  constructor
  · intro read
    have roomier := run_roomier (Nat.le_max_left room tree.depth) read
    cases roomier.symm.trans (read_write integral (Nat.le_max_right room tree.depth))
    exact ⟨depth_read read, rfl, rfl⟩
  · rintro ⟨shallow, rfl, rfl⟩
    exact read_write integral shallow

end SocketRpc.Proofs.Decoding
