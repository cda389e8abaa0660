import SocketRpc.Decoder.Basic

namespace SocketRpc
open Ascii

inductive Version
  | v2
deriving DecidableEq

namespace Version

def name : Version → String
  | .v2 => "2.0"

def ofName (name : String) : Except DataError Version :=
  if name = v2.name then .ok .v2 else .error (.unknownVariant name v2.name)

def toJson (v : Version) : Json := .string v.name

def ofTree : Json → Except DataError Version
  | .string name => ofName name
  | .object [(key, value)] => do
    let version ← ofName key
    Decoder.unit.ofTree value
    return version
  | .object _ => .error (.invalidValue .map "map with a single key")
  | tree => .error (.wrongType tree.found "string or map")

def nameOfText (input : List UInt8) : Except DecodeFault (Version × List UInt8) :=
  match Decoder.readQuoted input with
  | .error fault => .error fault
  | .ok (name, rest) =>
    match ofName name with
    | .ok version => .ok (version, rest)
    | .error reason => .error (Decoder.mismatch reason rest)

def closeOfText (input : List UInt8) : Except DecodeFault (List UInt8) :=
  match skipBlanks input with
  | [] => .error (Decoder.malformed .endInObject [])
  | b :: rest =>
    if b == closeBrace then .ok rest else .error (Decoder.malformed .expectedValue (b :: rest))

def objectOfText (room : Nat) (input : List UInt8) : Except DecodeFault (Version × List UInt8) :=
  match skipBlanks input with
  | [] => .error (Decoder.malformed .endInObject [])
  | b :: rest =>
    if b == quote then do
      let (version, rest) ← nameOfText rest
      let rest ← Decoder.readColon rest
      let (_, rest) ← Decoder.unit.ofText room rest
      let rest ← closeOfText rest
      return (version, rest)
    else if b == closeBrace then .error (Decoder.malformed .expectedValue rest)
    else .error (Decoder.malformed .keyNotString rest)

def ofText (room : Nat) (input : List UInt8) : Except DecodeFault (Version × List UInt8) :=
  match skipBlanks input with
  | [] => .error (Decoder.malformed .endInValue [])
  | b :: rest =>
    if b == quote then nameOfText rest
    else if b == openBrace then
      match room with
      | 0 => .error (Decoder.malformed .tooDeep rest)
      | room + 1 => objectOfText room rest
    else .error (Decoder.malformed .expectedValue rest)

def decoder : Decoder Version := ⟨ofTree, ofText⟩

end Version
end SocketRpc
