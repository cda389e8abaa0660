import SocketRpc.Binary64.Basic

namespace SocketRpc.Proofs.Binary64
open SocketRpc.Binary64

variable {num den num' den' : Nat} {negative negative' : Bool} {x y x' y' : Binary64}

theorem div_mono (positive : 0 < den) (positive' : 0 < den') (cross : num * den' ≤ num' * den) :
    num / den ≤ num' / den' := by
  rw [Nat.le_div_iff_mul_le positive']
  apply Nat.le_of_mul_le_mul_right _ positive
  calc num / den * den' * den
      = num / den * den * den' := Nat.mul_right_comm _ _ _
    _ ≤ num * den' := Nat.mul_le_mul_right den' (Nat.div_mul_le_self num den)
    _ ≤ num' * den := cross

theorem roundQuotient_bounds (num den : Nat) :
    num / den ≤ roundQuotient num den ∧ roundQuotient num den ≤ num / den + 1 := by
  simp only [roundQuotient]
  split <;> omega

theorem roundQuotient_eq_zero (positive : 0 < den) : roundQuotient num den = 0 ↔ 2 * num ≤ den := by
  by_cases less : num < den
  · simp only [roundQuotient, Nat.div_eq_of_lt less, Nat.mod_eq_of_lt less, and_true]
    split <;> omega
  · have quotient : 0 < num / den := Nat.div_pos (Nat.le_of_not_lt less) positive
    have bounds := (roundQuotient_bounds num den).1
    omega

theorem roundQuotient_mono (positive : 0 < den) (positive' : 0 < den')
    (cross : num * den' ≤ num' * den) : roundQuotient num den ≤ roundQuotient num' den' := by
  have quotients := div_mono positive positive' cross
  have bounds := roundQuotient_bounds num den
  have bounds' := roundQuotient_bounds num' den'
  rcases Nat.lt_or_eq_of_le quotients with less | same
  · omega
  -- The quotients are the same, so the remainders are compared with half of the denominators.
  have remainders : num % den * den' ≤ num' % den' * den := by
    have whole := Nat.div_add_mod num den
    have whole' := Nat.div_add_mod num' den'
    rw [← whole, ← whole', same, Nat.add_mul, Nat.add_mul] at cross
    have common : den * (num' / den') * den' = den' * (num' / den') * den := by ac_rfl
    omega
  have up : den ≤ 2 * (num % den) → den' ≤ 2 * (num' % den') := by
    intro half
    apply Nat.le_of_mul_le_mul_right _ positive
    have scaled := Nat.mul_le_mul_right den' half
    rw [Nat.mul_assoc] at scaled ⊢
    rw [Nat.mul_comm den' den]
    omega
  have tie : 2 * (num' % den') = den' → 2 * (num % den) ≤ den := by
    intro half
    apply Nat.le_of_mul_le_mul_right _ positive'
    have scaled := congrArg (· * den) half
    simp only [Nat.mul_assoc] at scaled ⊢
    rw [Nat.mul_comm den den']
    omega
  simp only [roundQuotient, same]
  split
  · split <;> omega
  · split <;> omega

theorem roundQuotient_one (n : Nat) : roundQuotient n 1 = n := by
  simp [roundQuotient, Nat.mod_one]

theorem roundQuotient_le {n : Nat} (positive : 0 < den) (h : num ≤ n * den) :
    roundQuotient num den ≤ n := by
  rw [← roundQuotient_one n]
  apply roundQuotient_mono positive Nat.one_pos
  rwa [Nat.mul_one]

theorem le_roundQuotient {n : Nat} (positive : 0 < den) (h : n * den ≤ num) :
    n ≤ roundQuotient num den := by
  rw [← roundQuotient_one n]
  apply roundQuotient_mono Nat.one_pos positive
  rwa [Nat.mul_one]

theorem pow_mono {m n : Nat} (h : m ≤ n) : Nat.pow 2 m ≤ Nat.pow 2 n :=
  Nat.pow_le_pow_right Nat.two_pos h

theorem pow_add (m n : Nat) : Nat.pow 2 (m + n) = Nat.pow 2 m * Nat.pow 2 n :=
  Nat.pow_add 2 m n

theorem pow_positive (n : Nat) : 0 < Nat.pow 2 n := Nat.two_pow_pos n

theorem binade_bounds (q : Nat) : q < Nat.pow 2 (q.log2 - 52 + 53) ∧
    (0 < q.log2 - 52 → Nat.pow 2 (q.log2 - 52 + 52) ≤ q) := by
  constructor
  · have below : q < Nat.pow 2 (q.log2 + 1) := Nat.lt_log2_self
    exact Nat.lt_of_lt_of_le below (pow_mono (by omega))
  · intro above
    have nonzero : q ≠ 0 := by
      rintro rfl
      exact absurd above (by decide)
    rw [show q.log2 - 52 + 52 = q.log2 by omega]
    exact Nat.log2_self_le nonzero

theorem nearest_mono (positive : 0 < den) (positive' : 0 < den') (cross : num * den' ≤ num' * den) :
    nearest num den ≤ nearest num' den' := by
  have cross : num * unitsPerOne * den' ≤ num' * unitsPerOne * den := by
    rw [Nat.mul_right_comm, Nat.mul_right_comm num']
    exact Nat.mul_le_mul_right unitsPerOne cross
  unfold nearest
  generalize num * unitsPerOne = n at cross ⊢
  generalize num' * unitsPerOne = n' at cross ⊢
  have quotients := div_mono positive positive' cross
  have below := (binade_bounds (n / den)).1
  have above := (binade_bounds (n' / den')).2
  have binades : (n / den).log2 - 52 ≤ (n' / den').log2 - 52 := by
    apply Nat.le_of_not_lt
    intro less
    have lower := (binade_bounds (n / den)).2 (by omega)
    have upper := (binade_bounds (n' / den')).1
    have apart := pow_mono (show (n' / den').log2 - 52 + 53 ≤ (n / den).log2 - 52 + 52 by omega)
    omega
  generalize (n / den).log2 - 52 = e at below binades ⊢
  generalize (n' / den').log2 - 52 = e' at above binades ⊢
  have unit := Nat.mul_pos positive (pow_positive e)
  have unit' := Nat.mul_pos positive' (pow_positive e')
  show e * binadeSize + roundQuotient n (den * Nat.pow 2 e) ≤
    e' * binadeSize + roundQuotient n' (den' * Nat.pow 2 e')
  rcases Nat.lt_or_eq_of_le binades with less | rfl
  · -- The smaller one is at most the end of its binade, the larger one at least the beginning of its own.
    have upper : roundQuotient n (den * Nat.pow 2 e) ≤ 2 * binadeSize := by
      apply roundQuotient_le unit
      have within := (Nat.div_lt_iff_lt_mul positive).1 below
      rw [pow_add] at within
      have shape : 2 * binadeSize * (den * Nat.pow 2 e) = Nat.pow 2 e * Nat.pow 2 53 * den := by
        show Nat.pow 2 53 * _ = _
        ac_rfl
      omega
    have lower : binadeSize ≤ roundQuotient n' (den' * Nat.pow 2 e') := by
      apply le_roundQuotient unit'
      have within := (Nat.le_div_iff_mul_le positive').1 (above (by omega))
      rw [pow_add] at within
      have shape : binadeSize * (den' * Nat.pow 2 e') = Nat.pow 2 e' * Nat.pow 2 52 * den' := by
        show Nat.pow 2 52 * _ = _
        ac_rfl
      omega
    have steps := Nat.mul_le_mul_right binadeSize (Nat.succ_le_of_lt less)
    rw [Nat.succ_mul] at steps
    omega
  · apply Nat.add_le_add_left
    apply roundQuotient_mono unit unit'
    calc n * (den' * Nat.pow 2 e) = n * den' * Nat.pow 2 e := (Nat.mul_assoc _ _ _).symm
      _ ≤ n' * den * Nat.pow 2 e := Nat.mul_le_mul_right _ cross
      _ = n' * (den * Nat.pow 2 e) := Nat.mul_assoc _ _ _

theorem nearest_zero (positive : 0 < den) : nearest 0 den = 0 := by
  have rounded : roundQuotient 0 den ≤ 0 := roundQuotient_le positive (Nat.zero_le _)
  simpa [nearest] using rounded

theorem units_mono {m n : Nat} (h : m ≤ n) : units m ≤ units n := by
  have binades : m / binadeSize - 1 ≤ n / binadeSize - 1 :=
    Nat.sub_le_sub_right (Nat.div_le_div_right h) 1
  have upper : m - (m / binadeSize - 1) * binadeSize ≤ 2 * binadeSize := by
    unfold binadeSize
    omega
  have lower : 0 < n / binadeSize - 1 → binadeSize ≤ n - (n / binadeSize - 1) * binadeSize := by
    unfold binadeSize
    omega
  unfold units
  generalize m / binadeSize - 1 = e at binades upper ⊢
  generalize n / binadeSize - 1 = e' at binades lower ⊢
  rcases Nat.lt_or_eq_of_le binades with less | rfl
  · calc (m - e * binadeSize) * Nat.pow 2 e
        ≤ 2 * binadeSize * Nat.pow 2 e := Nat.mul_le_mul_right _ upper
      _ = binadeSize * Nat.pow 2 (e + 1) := by rw [pow_add]; show _ = _ * (_ * 2); ac_rfl
      _ ≤ binadeSize * Nat.pow 2 e' := Nat.mul_le_mul_left _ (pow_mono less)
      _ ≤ (n - e' * binadeSize) * Nat.pow 2 e' := Nat.mul_le_mul_right _ (lower (by omega))
  · exact Nat.mul_le_mul_right _ (by omega)

theorem ofRatio?_eq_none :
    ofRatio? negative num den = none ↔ 0x7ff0000000000000 ≤ nearest num den := by
  simp only [ofRatio?]
  split <;> simp <;> omega

theorem magnitude_ofRatio (given : ofRatio? negative num den = some x) : x.magnitude = nearest num den := by
  simp only [ofRatio?] at given
  split at given <;> cases given
  rfl

theorem overflow_mono (positive : 0 < den) (positive' : 0 < den') (cross : num * den' ≤ num' * den)
    (overflows : ofRatio? negative num den = none) : ofRatio? negative' num' den' = none :=
  ofRatio?_eq_none.2 (Nat.le_trans (ofRatio?_eq_none.1 overflows) (nearest_mono positive positive' cross))

theorem unitsPerOne_positive : 0 < unitsPerOne := by decide +kernel

theorem mul_overflow_mono (left : x.magnitude ≤ x'.magnitude) (right : y.magnitude ≤ y'.magnitude)
    (overflows : x.mul? y = none) : x'.mul? y' = none := by
  have one := Nat.mul_pos unitsPerOne_positive unitsPerOne_positive
  apply overflow_mono one one _ overflows
  exact Nat.mul_le_mul_right _ (Nat.mul_le_mul (units_mono left) (units_mono right))

theorem mul_fits_zero (zero : x.isZero) : x.mul? y ≠ none := by
  intro overflows
  have magnitude : x.magnitude = 0 := by simpa [Binary64.isZero] using zero
  have product : units x.magnitude * units y.magnitude = 0 := by simp [magnitude, units]
  have large := ofRatio?_eq_none.1 overflows
  rw [product, nearest_zero (Nat.mul_pos unitsPerOne_positive unitsPerOne_positive)] at large
  exact absurd large (by decide)

theorem div_fits (one : unitsPerOne ≤ units y.magnitude) : x.div? y ≠ none := by
  intro overflows
  have large : 0x7ff0000000000000 ≤ nearest (units x.magnitude) (units y.magnitude) :=
    ofRatio?_eq_none.1 overflows
  -- No dividend is above the largest double, and no divisor is below one.
  have largest : units x.magnitude ≤ units 0x7fefffffffffffff :=
    units_mono (Nat.le_of_lt_succ x.finite)
  have rounded : nearest (units x.magnitude) (units y.magnitude) ≤
      nearest (units 0x7fefffffffffffff) unitsPerOne :=
    nearest_mono (Nat.lt_of_lt_of_le unitsPerOne_positive one) unitsPerOne_positive
      (Nat.mul_le_mul largest one)
  have fits : nearest (units 0x7fefffffffffffff) unitsPerOne < 0x7ff0000000000000 := by decide +kernel
  omega

end SocketRpc.Proofs.Binary64
