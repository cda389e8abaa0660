import SocketRpc.Json.Error
import SocketRpc.Text.Ascii
/-!
# Numbers, byte by byte

* `Numeral.step` reads one byte of a number, and says where the number has ended: before a byte that
  cannot go on with it.
* `Numeral.value` is the number that has been read. An integer of 64 bits stays one, all else is a
  double: the digits that fit 64 bits, scaled by a power of ten.
-/

namespace SocketRpc.Json
open Ascii

def powerOfTen? (n : Nat) : Option Binary64 :=
  if n ≤ 308 then Binary64.ofRatio? false (Nat.pow 10 n) 1 else none

def scaleUp? (x : Binary64) (n : Nat) : Option Binary64 :=
  match powerOfTen? n with
  | some power => x.mul? power
  | none => if x.isZero then some x else none

def divide? (x : Binary64) (n : Nat) : Option Binary64 := (powerOfTen? n).bind x.div?

def divideInSteps? (n : Nat) : Nat → Binary64 → Option Binary64
  | 0, x => divide? x n
  | steps + 1, x => if x.isZero then some x else (divide? x 308).bind (divideInSteps? n steps)

def scaleDown? (x : Binary64) (n : Nat) : Option Binary64 :=
  let steps := (n - 1) / 308
  divideInSteps? (n - 308 * steps) steps x

def scaled? (negative : Bool) (significand : Nat) (exponent : Int) : Option Binary64 :=
  match Binary64.ofRatio? false significand 1 with
  | none => none
  | some x =>
    let scaled := if 0 ≤ exponent then scaleUp? x exponent.toNat else scaleDown? x (-exponent).toNat
    scaled.map fun y => { y with negative }

inductive Stage
  | sign
  | zero
  | whole (significand : Nat)
  | long (significand : Nat) (exponent : Int)
  | point (significand : Nat) (exponent : Int)
  | fraction (significand : Nat) (exponent : Int)
  | spilled (significand : Nat) (exponent : Int)
  | mark (significand : Nat) (exponent : Int)
  | markSign (significand : Nat) (exponent : Int) (upward : Bool)
  | power (significand : Nat) (exponent : Int) (upward : Bool) (digits : Nat)
  | vanished
deriving DecidableEq

structure Numeral where
  negative : Bool
  stage : Stage
deriving DecidableEq

inductive NumeralMove
  | more (next : Numeral)
  | ended
  | refused (reason : SyntaxError)

namespace Numeral

def push? (significand : Nat) (b : UInt8) : Option Nat :=
  let next := significand * 10 + digit b
  if next < 0x10000000000000000 then some next else none

def isMark (b : UInt8) : Bool := b == byte 'e' || b == byte 'E'

def afterDigits (significand : Nat) (exponent : Int) (pointAllowed : Bool) (b : UInt8) :
    Option Stage :=
  if b == point && pointAllowed then some (.point significand exponent)
  else if isMark b then some (.mark significand exponent)
  else none

def fractionDigit (significand : Nat) (exponent : Int) (b : UInt8) : Stage :=
  match push? significand b with
  | some next => .fraction next (exponent - 1)
  | none => .spilled significand exponent

def step (n : Numeral) (b : UInt8) : NumeralMove :=
  let next (stage : Stage) : NumeralMove := .more ⟨n.negative, stage⟩
  let follow (stage : Option Stage) : NumeralMove := match stage with
    | some stage => next stage
    | none => .ended
  match n.stage with
  | .sign =>
    if b == byte '0' then next .zero
    else if isDigit b then next (.whole (digit b))
    else .refused .invalidNumber
  | .zero => if isDigit b then .refused .invalidNumber else follow (afterDigits 0 0 true b)
  | .whole significand =>
    if isDigit b then
      match push? significand b with
      | some larger => next (.whole larger)
      | none => next (.long significand 1)
    else follow (afterDigits significand 0 true b)
  | .long significand exponent =>
    if isDigit b then next (.long significand (exponent + 1))
    else follow (afterDigits significand exponent true b)
  | .point significand exponent =>
    if isDigit b then next (fractionDigit significand exponent b) else .refused .invalidNumber
  | .fraction significand exponent =>
    if isDigit b then next (fractionDigit significand exponent b)
    else follow (afterDigits significand exponent false b)
  | .spilled significand exponent =>
    if isDigit b then next (.spilled significand exponent)
    else follow (afterDigits significand exponent false b)
  | .mark significand exponent =>
    if b == plus then next (.markSign significand exponent true)
    else if b == minus then next (.markSign significand exponent false)
    else if isDigit b then next (.power significand exponent true (digit b))
    else .refused .invalidNumber
  | .markSign significand exponent upward =>
    if isDigit b then next (.power significand exponent upward (digit b))
    else .refused .invalidNumber
  | .power significand exponent upward digits =>
    if isDigit b then
      let larger := digits * 10 + digit b
      if larger < 0x80000000 then next (.power significand exponent upward larger)
      else if significand != 0 && upward then .refused .numberOutOfRange
      else next .vanished
    else .ended
  | .vanished => if isDigit b then next .vanished else .ended

def ofDouble? : Option Binary64 → Except SyntaxError Number
  | some x => .ok (.double x)
  | none => .error .numberOutOfRange

def ofWhole (negative : Bool) (significand : Nat) : Except SyntaxError Number :=
  let value : Int := if negative then -(significand : Int) else significand
  if fits : (-0x8000000000000000 ≤ value ∧ value < 0x10000000000000000) ∧
      (negative → value < 0) then
    .ok (.integer value fits.1)
  else ofDouble? (scaled? negative significand 0)

def ofScaled (negative : Bool) (significand : Nat) (exponent : Int) : Except SyntaxError Number :=
  ofDouble? (scaled? negative significand exponent)

def value (n : Numeral) : Except SyntaxError Number :=
  match n.stage with
  | .sign | .point .. | .mark .. | .markSign .. => .error .endInValue
  | .zero => ofWhole n.negative 0
  | .whole significand => ofWhole n.negative significand
  | .long significand exponent => ofScaled n.negative significand exponent
  | .fraction significand exponent => ofScaled n.negative significand exponent
  | .spilled significand exponent => ofScaled n.negative significand exponent
  | .power significand exponent upward digits =>
    ofScaled n.negative significand (if upward then exponent + digits else exponent - digits)
  | .vanished => .ok (.double (Binary64.zero n.negative))

end Numeral
end SocketRpc.Json
