import SocketRpc.Binary64.Basic
/-!
# Reading a double

* `Literal.ofText` accepts an optional sign and then digits with an optional point, at least one
  digit, and an optional exponent; or `inf`, `infinity` or `nan` in any case.
* A written exponent does not grow beyond the digit that brings it to 65536 or more.
* `number` is the number that digits stand for, as `number_eq_foldl` says.
* `Literal.value` is correctly rounded, and nothing for a literal that is not finite or rounds to
  infinity.
-/

namespace SocketRpc.Binary64

inductive Literal
  | finite (negative : Bool) (digits : Nat) (exponent : Int)
  | infinite (negative : Bool)
  | notANumber

inductive LiteralError
  | empty
  | malformed

namespace Literal

def digitValue (c : Char) : Nat := c.toNat - '0'.toNat

def pairUp (base : Nat) : List Nat → List Nat
  | low :: high :: rest => (low + base * high) :: pairUp base rest
  | rest => rest

theorem length_pairUp_le (base : Nat) (digits : List Nat) :
    (pairUp base digits).length ≤ digits.length := by
  fun_induction pairUp base digits with
  | case1 low high rest ih => simp only [List.length_cons]; omega
  | case2 => exact Nat.le_refl _

def assemble (base : Nat) (digits : List Nat) : Nat :=
  match digits with
  | [] => 0
  | [digit] => digit
  | low :: high :: rest => assemble (base * base) ((low + base * high) :: pairUp base rest)
termination_by digits.length
decreasing_by
  have := length_pairUp_le base rest
  simp only [List.length_cons]
  omega

theorem foldr_pairUp (base : Nat) (digits : List Nat) :
    (pairUp base digits).foldr (fun digit n => digit + base * base * n) 0 =
      digits.foldr (fun digit n => digit + base * n) 0 := by
  fun_induction pairUp base digits with
  | case1 low high rest ih =>
    simp only [List.foldr_cons, ih]
    rw [Nat.mul_add, Nat.mul_assoc, Nat.add_assoc]
  | case2 rest short =>
    match rest, short with
    | [], _ => rfl
    | [_], _ => simp
    | low :: high :: rest, short => exact absurd rfl (short low high rest)

theorem assemble_eq_foldr (base : Nat) (digits : List Nat) :
    assemble base digits = digits.foldr (fun digit n => digit + base * n) 0 := by
  fun_induction assemble base digits with
  | case1 => rfl
  | case2 => simp
  | case3 base low high rest ih => rw [ih]; exact foldr_pairUp base (low :: high :: rest)

def number (digits : List Char) : Nat := assemble 10 (digits.reverse.map digitValue)

theorem number_eq_foldl (digits : List Char) :
    number digits = digits.foldl (fun n c => digitValue c + 10 * n) 0 := by
  rw [number, assemble_eq_foldr, List.foldr_map, List.foldr_reverse]

def exponentCap : Nat := 65536

def exponentNumber (digits : List Char) : Nat :=
  digits.foldl (fun n c => if n < exponentCap then n * 10 + digitValue c else n) 0

def exponent? : List Char → Option Int
  | [] => some 0
  | mark :: rest =>
    if mark != 'e' && mark != 'E' then none
    else
      let (negative, digits) : Bool × List Char := match rest with
        | '-' :: digits => (true, digits)
        | '+' :: digits => (false, digits)
        | digits => (false, digits)
      if digits.isEmpty || !digits.all Char.isDigit then none
      else some (if negative then -(exponentNumber digits : Int) else exponentNumber digits)

def unsigned? (negative : Bool) (text : List Char) : Option Literal :=
  let whole := text.takeWhile Char.isDigit
  let rest := text.dropWhile Char.isDigit
  let (fraction, rest) : List Char × List Char := match rest with
    | '.' :: rest => (rest.takeWhile Char.isDigit, rest.dropWhile Char.isDigit)
    | rest => ([], rest)
  if whole.isEmpty && fraction.isEmpty then
    match String.ofList (text.map Char.toLower) with
    | "inf" | "infinity" => some (.infinite negative)
    | "nan" => some .notANumber
    | _ => none
  else (exponent? rest).map fun written =>
    .finite negative (number (whole ++ fraction)) (written - fraction.length)

def ofText (text : String) : Except LiteralError Literal :=
  let read : Option Literal := match text.toList with
    | '-' :: rest => unsigned? true rest
    | '+' :: rest => unsigned? false rest
    | rest => unsigned? false rest
  match read with
  | some literal => .ok literal
  | none => .error (if text.isEmpty then .empty else .malformed)

def value : Literal → Option Binary64
  | .finite negative digits exponent =>
    let leading : Int := digits.log2 * 30103 / 100000 + exponent
    if digits = 0 ∨ leading < -400 then some (Binary64.zero negative)
    else if 400 < leading then none
    else Binary64.ofRatio? negative (digits * Nat.pow 10 exponent.toNat)
      (Nat.pow 10 (-exponent).toNat)
  | .infinite _ => none
  | .notANumber => none

end Literal

def LiteralError.message : LiteralError → String
  | .empty => "cannot parse float from empty string"
  | .malformed => "invalid float literal"

end SocketRpc.Binary64
