import SocketRpc.Proofs.Json.Scaling
import SocketRpc.Proofs.Json.Spelling

namespace SocketRpc.Proofs.Json
open SocketRpc.Json Ascii

variable {room digits : Nat} {n : Numeral} {stack : List Frame} {b : UInt8}
variable {negative : Bool} {significand : Nat} {exponent : Int}

def TooLarge (n : Numeral) : Prop := n.value = .error .numberOutOfRange

def Climbs (n : Numeral) : Prop :=
  ∃ significand exponent digits, n.stage = .power significand exponent true digits

theorem tooLarge_iff : TooLarge ⟨negative, .power significand exponent true digits⟩ ↔
    scaled? negative significand (exponent + digits) = none := by
  show Numeral.ofDouble? (scaled? negative significand (exponent + digits)) = _ ↔ _
  cases scaled? negative significand (exponent + digits) <;> simp [Numeral.ofDouble?]

theorem climbs_step (climbs : Climbs n) (large : TooLarge n) (b : UInt8) :
    (∃ next, n.step b = .more next ∧ Climbs next ∧ TooLarge next) ∨
      n.step b = .refused .numberOutOfRange ∨ n.step b = .ended := by
  obtain ⟨negative, stage⟩ := n
  obtain ⟨significand, exponent, digits, rfl⟩ : ∃ _ _ _, stage = _ := climbs
  have overflows := tooLarge_iff.1 large
  cases digit : isDigit b with
  | false => exact .inr (.inr (by simp [Numeral.step, digit]))
  | true =>
      have nonzero : significand ≠ 0 := by
        rintro rfl
        exact scaled_fits_zero negative _ overflows
      by_cases fits : digits * 10 + Ascii.digit b < 0x80000000
      · left
        refine ⟨⟨negative, .power significand exponent true (digits * 10 + Ascii.digit b)⟩, ?_, ?_, ?_⟩
        · simp [Numeral.step, digit, fits]
        · exact ⟨_, _, _, rfl⟩
        · apply tooLarge_iff.2
          apply scaled_overflow_mono (Nat.le_refl _) _ overflows
          omega
      · exact .inr (.inl (by simp [Numeral.step, digit, fits, nonzero]))

theorem descends_step (h : isDigit b) :
    Numeral.step ⟨negative, .power significand exponent false digits⟩ b = .more ⟨negative,
      if digits * 10 + digit b < 0x80000000 then .power significand exponent false (digits * 10 + digit b)
      else .vanished⟩ := by
  by_cases fits : digits * 10 + digit b < 0x80000000 <;> simp [Numeral.step, h, fits]

theorem descends (room : Nat) (negative : Bool) (significand : Nat) (exponent : Int) (digits : Nat)
    (stack : List Frame) : ∃ more,
      advance room ⟨.number ⟨negative, .power significand exponent false digits⟩, stack⟩ more =
        some ⟨.number ⟨negative, .vanished⟩, stack⟩ := by
  -- Each nine makes the exponent larger, until it is beyond what is counted.
  obtain ⟨nine, isDigit, value⟩ : ∃ b, isDigit b = true ∧ digit b = 9 := ⟨byte '9', rfl, rfl⟩
  have step : Numeral.step ⟨negative, .power significand exponent false digits⟩ nine = .more _ :=
    descends_step isDigit
  rw [value] at step
  by_cases fits : digits * 10 + 9 < 0x80000000
  · rw [if_pos fits] at step
    obtain ⟨more, goes⟩ := descends room negative significand exponent (digits * 10 + 9) stack
    exact ⟨nine :: more, by rw [advance_cons (step_numeral step), goes]⟩
  · rw [if_neg fits] at step
    exact ⟨[nine], by rw [advance_cons (step_numeral step), advance]⟩
termination_by 0x80000000 - digits

theorem reduces (room : Nat) (stack : List Frame) (large : TooLarge n) (still : ¬ Climbs n) : ∃ more,
    advance room ⟨.number n, stack⟩ more = some ⟨.number ⟨n.negative, .vanished⟩, stack⟩ := by
  obtain ⟨negative, stage⟩ := n
  have marked (significand : Nat) (exponent : Int)
      (mark : Numeral.step ⟨negative, stage⟩ (byte 'e') = .more ⟨negative, .mark significand exponent⟩) :
      ∃ more, advance room ⟨.number ⟨negative, stage⟩, stack⟩ more =
        some ⟨.number ⟨negative, .vanished⟩, stack⟩ := by
    obtain ⟨more, goes⟩ := descends room negative significand exponent 0 stack
    refine ⟨byte 'e' :: minus :: byte '0' :: more, ?_⟩
    rw [advance_cons (step_numeral mark), advance_cons (step_numeral rfl), advance_cons (step_numeral rfl)]
    exact goes
  cases stage with
  | sign | point | mark | markSign => cases large
  | zero => exact marked _ _ rfl
  | whole significand => exact marked _ _ rfl
  | long significand exponent => exact marked _ _ rfl
  | fraction significand exponent => exact marked _ _ rfl
  | spilled significand exponent => exact marked _ _ rfl
  | power significand exponent upward digits =>
      cases upward with
      | true => exact absurd ⟨_, _, _, rfl⟩ still
      | false => exact descends room negative significand exponent digits stack
  | vanished => cases large

end SocketRpc.Proofs.Json
