import SocketRpc.Proofs.Json.Reading

namespace SocketRpc.Proofs.Json
open SocketRpc.Json Ascii

variable {room : Nat} {r : Reader} {b : UInt8} {rest : List UInt8}

def Placed : Move → Prop
  | .refused reason back => reason = .numberOutOfRange → back = 0
  | _ => True

theorem placed_settle (value : Json) (stack : List Frame) : Placed (Reader.settle value stack) := by
  rcases stack with _ | ⟨_ | _, stack⟩ <;> trivial

theorem placed_proceeds {stack : List Frame} {move : Move} (h : Proceeds stack b move) : Placed move := by
  cases h with
  | stays | next => trivial
  | closes => exact placed_settle _ stack
  | refused => exact fun _ => rfl

theorem placed_begin (room : Nat) (stack : List Frame) (b : UInt8) :
    Placed (Reader.begin room stack b) := by
  have begins := begin_begins room stack b
  generalize Reader.begin room stack b = move at begins ⊢
  cases begins with
  | refused => exact fun _ => rfl
  | _ => trivial

theorem placed_quoted {text : Quoted} {more : Quoted → Move} {closed : String → Move}
    (hmore : ∀ next, Placed (more next)) (hclosed : ∀ s, Placed (closed s)) :
    Placed (Reader.stepQuoted text more closed b) := by
  unfold Reader.stepQuoted
  split
  · exact hmore _
  · exact fun _ => rfl
  · split
    · exact hclosed _
    · exact nofun

theorem placed_number (numeral : Numeral) (stack : List Frame) (b : UInt8) :
    Placed (Reader.stepNumber numeral stack b) := by
  unfold Reader.stepNumber
  split
  · trivial
  · exact fun _ => rfl
  · split
    · trivial
    · split
      · trivial
      · exact placed_proceeds (afterItem_proceeds _ _ b)
      · exact placed_proceeds (afterMember_proceeds _ _ b)

theorem placed_step (room : Nat) (r : Reader) (b : UInt8) : Placed (r.step room b) := by
  obtain ⟨mode, stack⟩ := r
  cases mode with
  | number numeral => exact placed_number numeral stack b
  | string text => exact placed_quoted (fun _ => trivial) fun s => placed_settle _ stack
  | key read text => exact placed_quoted (fun _ => trivial) fun s => trivial
  | afterItem read => exact placed_proceeds (afterItem_proceeds read stack b)
  | afterMember read => exact placed_proceeds (afterMember_proceeds read stack b)
  | _ =>
      simp only [Reader.step]
      repeat' split
      all_goals first
        | trivial
        | exact placed_begin room _ b
        | exact placed_settle _ stack
        | exact fun _ => rfl

theorem run_range {input : List UInt8} {fault : Fault} (h : r.run room input = .error fault)
    (range : fault.reason = .numberOutOfRange) : fault.back = 0 ∧ fault.unread ≤ input.length := by
  induction input generalizing r with
  | nil =>
      rw [Reader.run] at h
      split at h <;> cases h
      exact ⟨rfl, Nat.le_refl _⟩
  | cons b rest ih =>
      have placed := placed_step room r b
      rw [Reader.run] at h
      split at h
      · obtain ⟨same, short⟩ := ih h
        exact ⟨same, Nat.le_succ_of_le short⟩
      · cases h
      · cases h
      · next step =>
          cases h
          rw [step] at placed
          exact ⟨placed range, Nat.le_succ _⟩
      · cases h
        exact ⟨rfl, Nat.le_refl _⟩

theorem run_later {fault : Fault} (h : r.run room (b :: rest) = .error fault)
    (range : fault.reason = .numberOutOfRange) (later : r.step room b ≠ .refusedBefore .numberOutOfRange) :
    fault.back = 0 ∧ fault.unread ≤ rest.length := by
  have placed := placed_step room r b
  rw [Reader.run] at h
  cases step : r.step room b with
  | more next => exact run_range (by simpa only [step] using h) range
  | done value => simp [step] at h
  | doneBefore value => simp [step] at h
  | refused reason back =>
      simp only [step] at h placed
      cases h
      exact ⟨placed range, Nat.le_refl _⟩
  | refusedBefore reason =>
      simp only [step] at h
      cases h
      cases range
      exact absurd step later

theorem place_injective {input : List UInt8} {i j : Nat} (lt : i < j) (within : j ≤ input.length) :
    Position.of input i 0 ≠ Position.of input j 0 := by
  obtain ⟨more, split, ne⟩ : ∃ more, input.take j = input.take i ++ more ∧ more ≠ [] := by
    refine ⟨(input.take j).drop i, ?_, ?_⟩
    · have split := (List.take_append_drop i (input.take j)).symm
      rwa [List.take_take, Nat.min_eq_left (Nat.le_of_lt lt)] at split
    · simp only [ne_eq, List.drop_eq_nil_iff, List.length_take]
      omega
  intro same
  simp only [Position.of, split, Position.mk.injEq, Nat.sub_zero, List.count_append,
    List.reverse_append] at same
  obtain ⟨line, column⟩ := same
  have clean : ∀ c ∈ more.reverse, (c != 0x0a) = true := by
    intro c hc
    rw [bne_iff_ne]
    rintro rfl
    exact List.count_eq_zero.1 (by omega) (List.mem_reverse.1 hc)
  rw [List.takeWhile_append_of_pos clean, List.length_append, List.length_reverse] at column
  exact ne (List.eq_nil_of_length_eq_zero (by omega))

end SocketRpc.Proofs.Json
