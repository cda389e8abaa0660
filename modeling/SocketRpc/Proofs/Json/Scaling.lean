import SocketRpc.Json.Numeral
import SocketRpc.Proofs.Binary64.Order

namespace SocketRpc.Proofs.Json
open SocketRpc.Json SocketRpc.Proofs.Binary64

variable {x y : Binary64} {m n significand significand' : Nat} {negative : Bool} {exponent exponent' : Int}

theorem power_mono (h : m ≤ n) :
    Binary64.nearest (Nat.pow 10 m) 1 ≤ Binary64.nearest (Nat.pow 10 n) 1 := by
  apply nearest_mono Nat.one_pos Nat.one_pos
  exact Nat.mul_le_mul_right 1 (Nat.pow_le_pow_right (by decide) h)

theorem units_one : Binary64.units (Binary64.nearest (Nat.pow 10 0) 1) = Binary64.unitsPerOne := by
  decide +kernel

theorem power_finite (h : n ≤ 308) : Binary64.nearest (Nat.pow 10 n) 1 < 0x7ff0000000000000 := by
  have largest : ∃ m, 308 ≤ m ∧ Binary64.nearest (Nat.pow 10 m) 1 < 0x7ff0000000000000 :=
    ⟨308, Nat.le_refl 308, by decide +kernel⟩
  obtain ⟨m, within, finite⟩ := largest
  exact Nat.lt_of_le_of_lt (power_mono (Nat.le_trans h within)) finite

theorem powerOfTen_fits (h : n ≤ 308) : ∃ power, powerOfTen? n = some power ∧
    power.magnitude = Binary64.nearest (Nat.pow 10 n) 1 := by
  have finite := power_finite h
  exact ⟨⟨false, _, finite⟩, by rw [powerOfTen?, if_pos h, Binary64.ofRatio?, dif_pos finite], rfl⟩

theorem scaleUp_fits_zero (zero : x.isZero) : scaleUp? x n ≠ none := by
  unfold scaleUp?
  split
  · exact mul_fits_zero zero
  · rw [if_pos zero]
    exact nofun

theorem scaleUp_overflow_mono (left : x.magnitude ≤ y.magnitude) (right : m ≤ n)
    (overflows : scaleUp? x m = none) : scaleUp? y n = none := by
  have nonzero : ¬ y.isZero := by
    intro zero
    refine scaleUp_fits_zero (x := x) ?_ overflows
    simp only [Binary64.isZero, beq_iff_eq] at zero ⊢
    omega
  by_cases small : n ≤ 308
  · obtain ⟨lower, given, magnitude⟩ := powerOfTen_fits (Nat.le_trans right small)
    obtain ⟨upper, given', magnitude'⟩ := powerOfTen_fits small
    simp only [scaleUp?, given, given'] at overflows ⊢
    apply mul_overflow_mono left _ overflows
    rw [magnitude, magnitude']
    exact power_mono right
  · rw [scaleUp?, powerOfTen?, if_neg small]
    exact if_neg nonzero

theorem divide_fits (x : Binary64) (h : n ≤ 308) : divide? x n ≠ none := by
  obtain ⟨power, given, magnitude⟩ := powerOfTen_fits h
  rw [divide?, given, Option.bind_some]
  apply div_fits
  calc Binary64.unitsPerOne
      = Binary64.units (Binary64.nearest (Nat.pow 10 0) 1) := units_one.symm
    _ ≤ Binary64.units (Binary64.nearest (Nat.pow 10 n) 1) := units_mono (power_mono (Nat.zero_le n))
    _ = Binary64.units power.magnitude := congrArg Binary64.units magnitude.symm

theorem divideInSteps_fits (h : n ≤ 308) (steps : Nat) (x : Binary64) :
    divideInSteps? n steps x ≠ none := by
  induction steps generalizing x with
  | zero => exact divide_fits x h
  | succ steps ih =>
      rw [divideInSteps?]
      split
      · exact nofun
      · obtain ⟨y, divided⟩ := Option.ne_none_iff_exists'.1 (divide_fits x (Nat.le_refl 308))
        rw [divided]
        exact ih y

theorem scaleDown_fits (x : Binary64) (n : Nat) : scaleDown? x n ≠ none := by
  apply divideInSteps_fits
  omega

theorem scaled_eq_bind (negative : Bool) (significand : Nat) (exponent : Int) :
    scaled? negative significand exponent = (Binary64.ofRatio? false significand 1).bind fun x =>
      (if 0 ≤ exponent then scaleUp? x exponent.toNat else scaleDown? x (-exponent).toNat).map
        fun y => { y with negative } := by
  -- Opened at its arguments, the function would be computed on a quotient that is not known.
  have opened : scaled? = fun negative significand exponent =>
      (Binary64.ofRatio? false significand 1).bind fun x =>
        (if 0 ≤ exponent then scaleUp? x exponent.toNat else scaleDown? x (-exponent).toNat).map
          fun y => { y with negative } := by
    delta scaled?
    funext negative significand exponent
    generalize Binary64.ofRatio? false significand 1 = x
    cases x <;> rfl
  rw [opened]

theorem scaled_eq_none {x : Binary64} (given : Binary64.ofRatio? false significand 1 = some x) :
    scaled? negative significand exponent = none ↔ 0 ≤ exponent ∧ scaleUp? x exponent.toNat = none := by
  rw [scaled_eq_bind, given, Option.bind_some, Option.map_eq_none_iff]
  split
  · next up => exact (and_iff_right up).symm
  · next down => exact iff_of_false (scaleDown_fits x _) fun up => down up.1

theorem scaled_overflow_mono (left : significand ≤ significand') (right : exponent ≤ exponent')
    (overflows : scaled? negative significand exponent = none) :
    scaled? negative significand' exponent' = none := by
  have cross := Nat.mul_le_mul_right 1 left
  cases given' : Binary64.ofRatio? false significand' 1 with
  | none => rw [scaled_eq_bind, given', Option.bind_none]
  | some y =>
      obtain ⟨x, given⟩ : ∃ x, Binary64.ofRatio? false significand 1 = some x := by
        refine Option.ne_none_iff_exists'.1 fun none => ?_
        cases (overflow_mono Nat.one_pos Nat.one_pos cross none).symm.trans given'
      obtain ⟨up, overflow⟩ := (scaled_eq_none given).1 overflows
      have magnitudes : x.magnitude ≤ y.magnitude := by
        rw [magnitude_ofRatio given, magnitude_ofRatio given']
        exact nearest_mono Nat.one_pos Nat.one_pos cross
      refine (scaled_eq_none given').2 ⟨Int.le_trans up right, ?_⟩
      exact scaleUp_overflow_mono magnitudes (by omega) overflow

theorem zero_exact : Binary64.ofRatio? false 0 1 = some (Binary64.zero false) := by decide +kernel

theorem scaled_fits_zero (negative : Bool) (exponent : Int) : scaled? negative 0 exponent ≠ none :=
  fun overflows => scaleUp_fits_zero rfl ((scaled_eq_none zero_exact).1 overflows).2

end SocketRpc.Proofs.Json
