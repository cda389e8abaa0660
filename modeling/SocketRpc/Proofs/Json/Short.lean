import SocketRpc.Proofs.Json.Range

/-!
# Short numbers are not too large as they stand

Of at most 308 digits no number is too large before its exponent comes.

* `Short` is what the digits read so far allow: a significand of 64 bits and an exponent that make up no
  more digits than have been read (`Bounded`). `short_step` keeps it.
* `short_of_digits`: every beginning of a number is `Short`.
* `short_fits`: so it is only too large within an exponent that is not negative.
-/

namespace SocketRpc.Proofs.Json
open SocketRpc.Json Ascii

variable {room count count' significand next : Nat} {exponent exponent' : Int} {negative pointAllowed : Bool}
variable {n last : Numeral} {stage : Stage} {stack : List Frame} {r : Reader} {b first : UInt8}
variable {more : List UInt8}

/-- The number is below `10 ^ count`. Its exponent is positive only if one more digit would not have fit. -/
structure Bounded (count significand : Nat) (exponent : Int) : Prop where
  fits : significand < 0x10000000000000000
  full : 0 < exponent → Nat.pow 10 18 ≤ significand
  digits : ∃ digits : Nat, significand < Nat.pow 10 digits ∧ digits + exponent ≤ count

def Short (count : Nat) (n : Numeral) : Prop := match n.stage with
  | .sign | .zero | .vanished | .power _ _ true _ => True
  | .whole significand => Bounded count significand 0
  | .long significand exponent => 0 < exponent ∧ Bounded count significand exponent
  | .point significand exponent | .fraction significand exponent | .spilled significand exponent
  | .mark significand exponent | .markSign significand exponent _ | .power significand exponent false _ =>
      Bounded count significand exponent

theorem digit_lt (h : isDigit b) : digit b < 10 := by
  simp only [isDigit, Bool.and_eq_true, decide_eq_true_eq, UInt8.le_iff_toNat_le] at h
  have upper : b.toNat ≤ 0x39 := h.2
  unfold digit
  omega

theorem Bounded.mono (bounded : Bounded count significand exponent) (h : count ≤ count') :
    Bounded count' significand exponent := by
  obtain ⟨digits, below, within⟩ := bounded.digits
  exact ⟨bounded.fits, bounded.full, digits, below, by omega⟩

theorem bounded_zero (count : Nat) : Bounded count 0 0 :=
  ⟨by decide, fun positive => absurd positive (by decide), 0, by decide, by omega⟩

theorem bounded_digit (h : isDigit b) : Bounded (count + 1) (digit b) 0 := by
  have small := digit_lt h
  exact ⟨by omega, fun positive => absurd positive (by decide), 1, small, by omega⟩

theorem Bounded.push (bounded : Bounded count significand exponent) (h : isDigit b)
    (pushed : Numeral.push? significand b = some next) (lower : exponent' ≤ exponent) :
    Bounded (count + 1) next exponent' := by
  have small := digit_lt h
  obtain ⟨digits, below, within⟩ := bounded.digits
  simp only [Numeral.push?] at pushed
  split at pushed
  · next fits =>
      cases pushed
      refine ⟨fits, fun positive => ?_, digits + 1, ?_, by omega⟩
      · have full := bounded.full (by omega)
        omega
      · show _ < Nat.pow 10 digits * 10
        omega
  · cases pushed

theorem Bounded.long (bounded : Bounded count significand 0) (h : isDigit b)
    (spills : Numeral.push? significand b = none) : Bounded (count + 1) significand 1 := by
  have small := digit_lt h
  obtain ⟨digits, below, within⟩ := bounded.digits
  simp only [Numeral.push?] at spills
  split at spills
  · cases spills
  · next large => exact ⟨bounded.fits, fun _ => by show 1000000000000000000 ≤ _; omega, digits, below, by omega⟩

theorem short_afterDigits (bounded : Bounded count significand exponent)
    (follows : Numeral.afterDigits significand exponent pointAllowed b = some stage) :
    Short (count + 1) ⟨negative, stage⟩ := by
  have longer := bounded.mono (Nat.le_succ count)
  simp only [Numeral.afterDigits] at follows
  split at follows
  · cases follows
    exact longer
  · split at follows <;> cases follows
    exact longer

theorem short_fractionDigit (bounded : Bounded count significand exponent) (h : isDigit b) :
    Short (count + 1) ⟨negative, Numeral.fractionDigit significand exponent b⟩ := by
  unfold Numeral.fractionDigit
  split
  · next larger pushed => exact bounded.push h pushed (by omega)
  · exact bounded.mono (Nat.le_succ count)

theorem short_step (short : Short count n) (step : n.step b = .more last) : Short (count + 1) last := by
  obtain ⟨negative, stage⟩ := n
  cases stage with
  | sign =>
      simp only [Numeral.step] at step
      split at step
      · cases step
        trivial
      · split at step <;> cases step
        next digit => exact bounded_digit digit
  | zero =>
      simp only [Numeral.step] at step
      split at step
      · cases step
      · split at step <;> cases step
        next follows => exact short_afterDigits (bounded_zero count) follows
  | whole significand =>
      simp only [Numeral.step] at step
      split at step
      · next digit =>
          split at step <;> cases step
          · next pushed => exact Bounded.push short digit pushed (Int.le_refl 0)
          · next spills => exact ⟨Int.one_pos, Bounded.long short digit spills⟩
      · split at step <;> cases step
        next follows => exact short_afterDigits short follows
  | long significand exponent =>
      simp only [Numeral.step] at step
      obtain ⟨positive, bounded⟩ := short
      split at step
      · cases step
        obtain ⟨digits, below, within⟩ := bounded.digits
        exact ⟨by omega, bounded.fits, fun _ => bounded.full positive, digits, below, by omega⟩
      · split at step <;> cases step
        next follows => exact short_afterDigits bounded follows
  | point significand exponent =>
      simp only [Numeral.step] at step
      split at step <;> cases step
      next digit => exact short_fractionDigit short digit
  | fraction significand exponent =>
      simp only [Numeral.step] at step
      split at step
      · cases step
        next digit => exact short_fractionDigit short digit
      · split at step <;> cases step
        next follows => exact short_afterDigits short follows
  | spilled significand exponent =>
      simp only [Numeral.step] at step
      split at step
      · cases step
        exact Bounded.mono short (Nat.le_succ count)
      · split at step <;> cases step
        next follows => exact short_afterDigits short follows
  | mark significand exponent =>
      simp only [Numeral.step] at step
      repeat' split at step
      all_goals cases step
      · exact Bounded.mono short (Nat.le_succ count)
      · exact Bounded.mono short (Nat.le_succ count)
      · trivial
  | markSign significand exponent upward =>
      simp only [Numeral.step] at step
      split at step <;> cases step
      cases upward with
      | true => trivial
      | false => exact Bounded.mono short (Nat.le_succ count)
  | power significand exponent upward digits =>
      simp only [Numeral.step] at step
      repeat' split at step
      all_goals cases step
      · cases upward with
        | true => trivial
        | false => exact Bounded.mono short (Nat.le_succ count)
      · trivial
  | vanished =>
      simp only [Numeral.step] at step
      split at step <;> cases step
      trivial

theorem short_begin (begins : BeginsNumber b n) : Short 1 n := by
  cases begins with
  | sign | zero => trivial
  | digit nonzero digit => exact bounded_digit digit

theorem short_advance (short : Short count n) (goes : advance room ⟨.number n, []⟩ more = some r) :
    ∃ last, r = ⟨.number last, []⟩ ∧ Short (count + more.length) last := by
  induction more generalizing count n with
  | nil =>
      cases goes
      exact ⟨n, rfl, short⟩
  | cons b more ih =>
      obtain ⟨next, step, goes⟩ := advance_cons_eq_some.1 goes
      simp only [Reader.step, Reader.stepNumber] at step
      split at step
      · next larger pushed =>
          cases step
          rw [List.length_cons, Nat.add_comm more.length, ← Nat.add_assoc]
          exact ih (short_step short pushed) goes
      · cases step
      · split at step <;> cases step

theorem short_of_digits (numeric : isNumeric first)
    (goes : advance room .start (first :: more) = some ⟨.number n, stack⟩) : Short (first :: more).length n := by
  obtain ⟨next, step, goes⟩ := advance_cons_eq_some.1 goes
  simp only [Reader.start, Reader.step, numeric_solid numeric] at step
  obtain ⟨begun, rfl, begins⟩ := begin_number numeric step
  obtain ⟨last, same, short⟩ := short_advance (short_begin begins) goes
  cases same
  rwa [List.length_cons, Nat.add_comm]

theorem bounded_fits (bounded : Bounded count significand exponent) (small : count ≤ 308) :
    scaled? negative significand exponent ≠ none := by
  obtain ⟨fits, full, digits, below, within⟩ := bounded
  intro overflows
  have few : scaled? negative 0x10000000000000000 288 ≠ none := by cases negative <;> decide +kernel
  have many : scaled? negative (Nat.pow 10 19) 289 ≠ none := by cases negative <;> decide +kernel
  by_cases up : exponent ≤ 288
  · exact few (scaled_overflow_mono (Nat.le_of_lt fits) up overflows)
  · -- A positive exponent takes a significand of 19 digits, which leave no more than 289 for it.
    have least : 18 < digits := (Nat.pow_lt_pow_iff_right (by decide)).1 (Nat.lt_of_le_of_lt (full (by omega)) below)
    have most : digits = 19 := by omega
    subst most
    exact many (scaled_overflow_mono (Nat.le_of_lt below) (by omega) overflows)

theorem overflow_of_double {x : Option Binary64} {reason : SyntaxError}
    (h : Numeral.ofDouble? x = .error reason) : x = none := by
  cases x with
  | none => rfl
  | some x => cases h

theorem overflow_of_whole {reason : SyntaxError} (h : Numeral.ofWhole negative significand = .error reason) :
    scaled? negative significand 0 = none := by
  unfold Numeral.ofWhole at h
  extract_lets value at h
  split at h
  · cases h
  · exact overflow_of_double h

theorem short_fits (short : Short count n) (small : count ≤ 308) (large : TooLarge n) : Climbs n := by
  obtain ⟨negative, stage⟩ := n
  cases stage with
  | sign | point | mark | markSign | vanished => cases large
  | zero => exact absurd (overflow_of_whole large) (bounded_fits (bounded_zero count) small)
  | whole significand => exact absurd (overflow_of_whole large) (bounded_fits short small)
  | long significand exponent => exact absurd (overflow_of_double large) (bounded_fits short.2 small)
  | fraction significand exponent => exact absurd (overflow_of_double large) (bounded_fits short small)
  | spilled significand exponent => exact absurd (overflow_of_double large) (bounded_fits short small)
  | power significand exponent upward digits =>
      cases upward with
      | true => exact ⟨significand, exponent, digits, rfl⟩
      | false =>
          have overflows : scaled? negative significand (exponent - digits) = none := overflow_of_double large
          have lower : exponent - digits ≤ exponent := by omega
          exact absurd (scaled_overflow_mono (Nat.le_refl _) lower overflows) (bounded_fits short small)

end SocketRpc.Proofs.Json
