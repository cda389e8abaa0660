namespace SocketRpc

/-- A finite double: a sign, and the place of its absolute value among those of the finite doubles in
ascending order, zero first. Magnitude `0x7ff0000000000000` would be infinity. -/
structure Binary64 where
  negative : Bool
  magnitude : Nat
  finite : magnitude < 0x7ff0000000000000
deriving DecidableEq

namespace Binary64

abbrev binadeSize : Nat := 0x10000000000000

def unitsPerOne : Nat := Nat.pow 2 1074

def units (magnitude : Nat) : Nat :=
  let binade := magnitude / binadeSize - 1
  (magnitude - binade * binadeSize) * Nat.pow 2 binade

/-- The integer nearest to `num / den`, a tie going to the even one. -/
def roundQuotient (num den : Nat) : Nat :=
  let twice := 2 * (num % den)
  if twice < den ∨ (twice = den ∧ num / den % 2 = 0) then num / den else num / den + 1

def nearest (num den : Nat) : Nat :=
  let binade := (num * unitsPerOne / den).log2 - 52
  binade * binadeSize + roundQuotient (num * unitsPerOne) (den * Nat.pow 2 binade)

def ofRatio? (negative : Bool) (num den : Nat) : Option Binary64 :=
  let magnitude := nearest num den
  if finite : magnitude < 0x7ff0000000000000 then some ⟨negative, magnitude, finite⟩ else none

def zero (negative : Bool) : Binary64 := ⟨negative, 0, by decide⟩

def isZero (x : Binary64) : Bool := x.magnitude == 0

def mul? (x y : Binary64) : Option Binary64 :=
  ofRatio? (x.negative != y.negative) (units x.magnitude * units y.magnitude)
    (unitsPerOne * unitsPerOne)

def div? (x y : Binary64) : Option Binary64 :=
  ofRatio? (x.negative != y.negative) (units x.magnitude) (units y.magnitude)

end Binary64
end SocketRpc
