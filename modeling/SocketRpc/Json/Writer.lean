import SocketRpc.Binary64.Shortest
import SocketRpc.Json.Basic
import SocketRpc.Text.Ascii
import SocketRpc.Text.Utf8

namespace SocketRpc.Json
open Ascii

def hexDigit (n : Nat) : UInt8 := if n < 10 then 0x30 + n.toUInt8 else 0x57 + n.toUInt8

def writeByte (b : UInt8) : List UInt8 :=
  if b == quote then [backslash, quote]
  else if b == backslash then [backslash, backslash]
  else if b == backspace then [backslash, byte 'b']
  else if b == formFeed then [backslash, byte 'f']
  else if b == newline then [backslash, byte 'n']
  else if b == carriageReturn then [backslash, byte 'r']
  else if b == tab then [backslash, byte 't']
  else if b < 0x20 then
    [backslash, byte 'u', byte '0', byte '0', hexDigit (b.toNat / 16), hexDigit (b.toNat % 16)]
  else [b]

def writeString (s : String) : List UInt8 :=
  quote :: ((Utf8.bytes s).flatMap writeByte ++ [quote])

def writeInteger (n : Int) : List UInt8 :=
  if n < 0 then minus :: decimal n.natAbs else decimal n.natAbs

def writeNumber : Number → List UInt8
  | .integer value _ => writeInteger value
  | .double x => Utf8.bytes x.text

mutual

def write : Json → List UInt8
  | .null => "null".toList.map byte
  | .bool true => "true".toList.map byte
  | .bool false => "false".toList.map byte
  | .number n => writeNumber n
  | .string text => writeString text
  | .array items => openBracket :: writeItems items
  | .object members => openBrace :: writeMembers members

def writeItems : List Json → List UInt8
  | [] => [closeBracket]
  | item :: rest => write item ++ writeMoreItems rest

def writeMoreItems : List Json → List UInt8
  | [] => [closeBracket]
  | item :: rest => comma :: (write item ++ writeMoreItems rest)

def writeMembers : List (String × Json) → List UInt8
  | [] => [closeBrace]
  | (key, value) :: rest => writeString key ++ colon :: (write value ++ writeMoreMembers rest)

def writeMoreMembers : List (String × Json) → List UInt8
  | [] => [closeBrace]
  | (key, value) :: rest =>
    comma :: (writeString key ++ colon :: (write value ++ writeMoreMembers rest))

end

def newLine (level : Nat) : List UInt8 := newline :: List.replicate (2 * level) space

mutual

def writePretty (level : Nat) : Json → List UInt8
  | .null => "null".toList.map byte
  | .bool true => "true".toList.map byte
  | .bool false => "false".toList.map byte
  | .number n => writeNumber n
  | .string text => writeString text
  | .array [] => [openBracket, closeBracket]
  | .array (item :: rest) =>
    openBracket :: (newLine (level + 1) ++ (writePretty (level + 1) item ++
      prettyMoreItems level rest))
  | .object [] => [openBrace, closeBrace]
  | .object ((key, value) :: rest) =>
    openBrace :: (newLine (level + 1) ++ (writeString key ++ colon :: space ::
      (writePretty (level + 1) value ++ prettyMoreMembers level rest)))

def prettyMoreItems (level : Nat) : List Json → List UInt8
  | [] => newLine level ++ [closeBracket]
  | item :: rest =>
    comma :: (newLine (level + 1) ++ (writePretty (level + 1) item ++ prettyMoreItems level rest))

def prettyMoreMembers (level : Nat) : List (String × Json) → List UInt8
  | [] => newLine level ++ [closeBrace]
  | (key, value) :: rest =>
    comma :: (newLine (level + 1) ++ (writeString key ++ colon :: space ::
      (writePretty (level + 1) value ++ prettyMoreMembers level rest)))

end

def pretty (value : Json) : List UInt8 := writePretty 0 value

end SocketRpc.Json
