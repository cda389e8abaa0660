import SocketRpc.Proofs.Framing.Literal
import SocketRpc.Proofs.Json.Range

namespace SocketRpc.Proofs.Framing
open SocketRpc.Json SocketRpc.Framing SocketRpc.Proofs.Json Ascii

variable {used : Nat} {b : UInt8} {text more : List UInt8} {value : Json} {n : Numeral} {stack : List Frame}

def runsOn (text : List UInt8) (value : Json) (used : Nat) (more : List UInt8) : Bool :=
  isLiteral value && used == text.length && more.head?.any fun b => !mayFollow b

theorem complete_stable (h : scan text = .complete value used) (more : List UInt8) :
    scan (text ++ more) = if runsOn text value used more then .invalid else .complete value used := by
  rcases complete_cases h with ⟨apart, stays⟩ | ⟨blanks, word, rfl, blank, literal, rfl⟩
  · have ends : runsOn text value used more = false := by
      rw [Bool.eq_false_iff]
      intro runs
      simp only [runsOn, Bool.and_eq_true, beq_iff_eq] at runs
      exact apart runs.1
    rw [stays, ends]
    rfl
  · rw [scan_literal blank literal, runsOn, word_isLiteral literal]
    cases more with
    | nil => simp
    | cons b more => cases follows : mayFollow b <;> simp [follows]

theorem complete_stable_of_null :
    scan (("null".toList.map byte) ++ [space]) = .complete .null 4 ∧
    scan (("null".toList.map byte) ++ [byte 'x']) = .invalid :=
  have whole : scan ("null".toList.map byte) = .complete .null 4 := rfl
  ⟨complete_stable whole [space], complete_stable whole [byte 'x']⟩

instance (v : Verdict) : Decidable (v = .invalid) := match v with
  | .invalid => .isTrue rfl
  | .complete .. | .incomplete => .isFalse nofun

/-- The text breaks off in a number that is too large as it stands, but not within an exponent that can
only make it larger. -/
def Reducible (text : List UInt8) : Prop :=
  ∃ n stack, Reaches text ⟨.number n, stack⟩ ∧ TooLarge n ∧ ¬ Climbs n

theorem number_of_tooLarge {r : Reader} (ends : r.finish = .error .numberOutOfRange) :
    ∃ n stack, r = ⟨.number n, stack⟩ ∧ TooLarge n := by
  obtain ⟨mode, stack⟩ := r
  cases mode <;> simp only [Reader.finish] at ends
  all_goals try cases ends
  next n =>
    refine ⟨n, stack, rfl, ?_⟩
    split at ends
    · next error => cases ends; exact error
    · rcases stack with _ | ⟨_ | _, stack⟩ <;> cases ends

theorem scan_tooLarge (goes : Reaches text ⟨.number n, stack⟩) (large : TooLarge n) :
    scan text = .invalid := by
  have ends : Reader.finish ⟨.number n, stack⟩ = .error .numberOutOfRange := by
    simp only [Reader.finish, show n.value = _ from large]
  rw [scan_open goes, ends]
  rfl

theorem scan_climbs (goes : Reaches text ⟨.number n, stack⟩) (climbs : Climbs n) (large : TooLarge n)
    (more : List UInt8) : scan (text ++ more) = .invalid := by
  induction more generalizing text n with
  | nil => rw [List.append_nil, scan_tooLarge goes large]
  | cons b more ih =>
      rcases climbs_step climbs large b with ⟨next, step, climbs, large⟩ | refused | ended
      · have goes : Reaches (text ++ [b]) ⟨.number next, stack⟩ :=
          advance_append.2 ⟨_, goes, advance_cons (step_numeral step)⟩
        simpa using ih goes climbs large
      · have stops : Reader.step Json.maxDepth ⟨.number n, stack⟩ b = .refused .numberOutOfRange 0 := by
          simp only [Reader.step, Reader.stepNumber, refused]
        exact scan_refused goes (.inl ⟨0, stops⟩) more
      · have value : n.value = .error .numberOutOfRange := large
        have stops : Reader.step Json.maxDepth ⟨.number n, stack⟩ b = .refusedBefore .numberOutOfRange := by
          simp only [Reader.step, Reader.stepNumber, ended, value]
        exact scan_refused goes (.inr stops) more

theorem scan_vanished {negative : Bool} (goes : Reaches text ⟨.number ⟨negative, .vanished⟩, stack⟩) :
    scan text = .incomplete := by
  rw [scan_open goes]
  rcases stack with _ | ⟨_ | _, stack⟩ <;> rfl

theorem reducible_not_final (h : Reducible text) : ∃ more, scan (text ++ more) = .incomplete := by
  obtain ⟨n, stack, goes, large, still⟩ := h
  obtain ⟨more, vanishes⟩ := reduces Json.maxDepth stack large still
  exact ⟨more, scan_vanished (advance_append.2 ⟨_, goes, vanishes⟩)⟩

theorem invalid_final (h : scan text = .invalid) :
    (∀ more, scan (text ++ more) = .invalid) ↔ ¬ Reducible text := by
  constructor
  · intro final reducible
    obtain ⟨more, incomplete⟩ := reducible_not_final reducible
    cases (final more).symm.trans incomplete
  · intro irreducible more
    rcases invalid_for_good h with ⟨r, goes⟩ | ⟨e, -, stays⟩
    · obtain ⟨n, stack, rfl, large⟩ := number_of_tooLarge (open_invalid goes h)
      have climbs : Climbs n := Classical.not_not.1 fun still => irreducible ⟨n, stack, goes, large, still⟩
      exact scan_climbs goes climbs large more
    · exact (stays more).1

theorem exponent_stays_too_large : scan ("1e999".toList.map byte) = .invalid ∧
    ∀ more, scan ("1e999".toList.map byte ++ more) = .invalid := by
  have invalid : scan ("1e999".toList.map byte) = .invalid := by decide +kernel
  refine ⟨invalid, (invalid_final invalid).2 ?_⟩
  rintro ⟨n, stack, goes, -, still⟩
  cases goes
  exact still ⟨1, 0, 999, rfl⟩

theorem reduced_number_valid :
    scan (byte '1' :: List.replicate 400 (byte '0')) = .invalid ∧
    scan (byte '1' :: List.replicate 400 (byte '0') ++ "e-400 ".toList.map byte) ≠ .invalid := by
  decide +kernel

end SocketRpc.Proofs.Framing
