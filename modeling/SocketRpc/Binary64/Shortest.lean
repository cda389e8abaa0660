import SocketRpc.Binary64.Basic
/-!
# The shortest decimal that reads back

* `shortest` takes the coarsest decimal grid that has a point among the reals rounding to the
  double, and on it the point nearest to the double.
* `Binary64.text` lays the digits out: positionally from `1e-5` up to `1e16`, always with a fraction
  digit, and otherwise with a signed exponent.
-/

namespace SocketRpc.Binary64

structure Decimal where
  digits : Nat
  exponent : Int

/-- Whether the decimal lies among the reals that round to the magnitude, which is not zero. The
ends of that interval belong to it when the magnitude is even. -/
def readsBack (magnitude : Nat) (d : Decimal) : Bool :=
  let low := units (magnitude - 1) + units magnitude
  let high := units magnitude + units (magnitude + 1)
  let value := d.digits * (2 * unitsPerOne) * Nat.pow 10 d.exponent.toNat
  let scale := Nat.pow 10 (-d.exponent).toNat
  if magnitude % 2 = 0 then low * scale ≤ value && value ≤ high * scale
  else low * scale < value && value < high * scale

def leadingPower (magnitude : Nat) : Int :=
  let value := units magnitude
  let guess := ((value.log2 : Int) - 1074) * 30103 / 100000
  let above (k : Int) : Bool := value * Nat.pow 10 (-k).toNat < unitsPerOne * Nat.pow 10 k.toNat
  if above guess then guess else if above (guess + 1) then guess + 1 else guess + 2

def onGrid? (magnitude : Nat) (exponent : Int) : Option Decimal :=
  let num := units magnitude * Nat.pow 10 (-exponent).toNat
  let den := unitsPerOne * Nat.pow 10 exponent.toNat
  let near : Decimal := ⟨roundQuotient num den, exponent⟩
  let below : Decimal := ⟨num / den, exponent⟩
  let above : Decimal := ⟨num / den + 1, exponent⟩
  [near, below, above].find? (readsBack magnitude)

def shortest (magnitude : Nat) : Decimal :=
  let power := leadingPower magnitude
  let grids := (List.range 17).map fun (n : Nat) => power - (n + 1)
  match grids.findSome? (onGrid? magnitude) with
  | some d => if d.digits % 10 = 0 then ⟨d.digits / 10, d.exponent + 1⟩ else d
  | none => ⟨units magnitude * Nat.pow 5 1074, -1074⟩

def zeros (n : Nat) : String := String.ofList (List.replicate n '0')

def Decimal.text (d : Decimal) : String :=
  let digits := (toString d.digits).toList
  let point : Int := digits.length + d.exponent
  if 0 < point && point ≤ 16 then
    if 0 ≤ d.exponent then String.ofList digits ++ zeros d.exponent.toNat ++ ".0"
    else String.ofList (digits.take point.toNat) ++ "." ++ String.ofList (digits.drop point.toNat)
  else if -5 < point && point ≤ 0 then
    "0." ++ zeros (-point).toNat ++ String.ofList digits
  else
    let fraction := if digits.length = 1 then "" else "." ++ String.ofList (digits.drop 1)
    let sign := if point ≤ 0 then "-" else "+"
    String.ofList (digits.take 1) ++ fraction ++ "e" ++ sign ++ toString (point - 1).natAbs

def text (x : Binary64) : String :=
  let sign := if x.negative then "-" else ""
  sign ++ if x.isZero then "0.0" else (shortest x.magnitude).text

end SocketRpc.Binary64
