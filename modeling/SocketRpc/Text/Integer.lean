namespace SocketRpc.Text

inductive IntegerError
  | empty
  | invalidDigit
  | tooLarge
  | tooSmall
deriving DecidableEq

def IntegerError.message : IntegerError → String
  | .empty => "cannot parse integer from empty string"
  | .invalidDigit => "invalid digit found in string"
  | .tooLarge => "number too large to fit in target type"
  | .tooSmall => "number too small to fit in target type"

def digits (maximum : Nat) (overflow : IntegerError) (sofar : Nat) :
    List Char → Except IntegerError Nat
  | [] => .ok sofar
  | c :: rest =>
    if c.isDigit then
      let next := sofar * 10 + (c.toNat - '0'.toNat)
      if next ≤ maximum then digits maximum overflow next rest else .error overflow
    else .error .invalidDigit

def someDigits (maximum : Nat) (overflow : IntegerError) : List Char → Except IntegerError Nat
  | [] => .error .invalidDigit
  | c :: rest => digits maximum overflow 0 (c :: rest)

def natural (text : String) : Except IntegerError Nat :=
  match text.toList with
  | [] => .error .empty
  | '+' :: rest => someDigits 0xffffffffffffffff .tooLarge rest
  | rest => someDigits 0xffffffffffffffff .tooLarge rest

def integer (text : String) : Except IntegerError Int :=
  match text.toList with
  | [] => .error .empty
  | '+' :: rest => (someDigits 0x7fffffffffffffff .tooLarge rest).map Int.ofNat
  | '-' :: rest => (someDigits 0x8000000000000000 .tooSmall rest).map fun n => -(n : Int)
  | rest => (someDigits 0x7fffffffffffffff .tooLarge rest).map Int.ofNat

end SocketRpc.Text
