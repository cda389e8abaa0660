namespace SocketRpc.Ascii

@[simp] abbrev quote : UInt8 := 0x22
@[simp] abbrev backslash : UInt8 := 0x5c
@[simp] abbrev slash : UInt8 := 0x2f
@[simp] abbrev comma : UInt8 := 0x2c
@[simp] abbrev colon : UInt8 := 0x3a
@[simp] abbrev openBracket : UInt8 := 0x5b
@[simp] abbrev closeBracket : UInt8 := 0x5d
@[simp] abbrev openBrace : UInt8 := 0x7b
@[simp] abbrev closeBrace : UInt8 := 0x7d
@[simp] abbrev plus : UInt8 := 0x2b
@[simp] abbrev minus : UInt8 := 0x2d
@[simp] abbrev point : UInt8 := 0x2e
@[simp] abbrev space : UInt8 := 0x20
@[simp] abbrev tab : UInt8 := 0x09
@[simp] abbrev newline : UInt8 := 0x0a
@[simp] abbrev formFeed : UInt8 := 0x0c
@[simp] abbrev carriageReturn : UInt8 := 0x0d
@[simp] abbrev backspace : UInt8 := 0x08

abbrev byte (c : Char) : UInt8 := c.toNat.toUInt8

def isBlank (b : UInt8) : Bool := b == space || b == tab || b == newline || b == carriageReturn

def isWhitespace (b : UInt8) : Bool := isBlank b || b == formFeed

def isDigit (b : UInt8) : Bool := 0x30 ≤ b && b ≤ 0x39

def digit (b : UInt8) : Nat := b.toNat - 0x30

def hexDigit? (b : UInt8) : Option Nat :=
  if 0x30 ≤ b ∧ b ≤ 0x39 then some (b.toNat - 0x30)
  else if 0x61 ≤ b ∧ b ≤ 0x66 then some (b.toNat - 0x61 + 10)
  else if 0x41 ≤ b ∧ b ≤ 0x46 then some (b.toNat - 0x41 + 10)
  else none

def skipBlanks (input : List UInt8) : List UInt8 := input.dropWhile isBlank

def decimal (n : Nat) : List UInt8 :=
  if n < 10 then [0x30 + n.toUInt8] else decimal (n / 10) ++ [0x30 + (n % 10).toUInt8]

end SocketRpc.Ascii
