import SocketRpc.Json.Document
/-!
# Decoders

* A `Decoder` reads a type in two ways: from a tree, and straight from a text, where it stops at the
  first byte that cannot be right and so knows the place of a mismatch.
* `Decoder.decode` decodes a whole input, `Decoder.convert` a value that has been read before.
* `whole`, `scalar` and `optional` are the decoders that others are built from.
-/

namespace SocketRpc
open Ascii

inductive DecodeFault
  | placed (cause : Cause) (unread back : Nat)
  | loose (reason : DataError) (rest : List UInt8)

def Fault.toDecodeFault (fault : Fault) : DecodeFault :=
  .placed (.malformed fault.reason) fault.unread fault.back

/-- A way to read a type. From a text it is told how many containers it may open inside one another,
and gives the bytes after the value. -/
structure Decoder (α : Type) where
  ofTree : Json → Except DataError α
  ofText : Nat → List UInt8 → Except DecodeFault (α × List UInt8)

namespace Decoder

variable {α β : Type}

def malformed (reason : SyntaxError) (rest : List UInt8) : DecodeFault :=
  .placed (.malformed reason) rest.length 0

def mismatch (reason : DataError) (rest : List UInt8) : DecodeFault :=
  .placed (.mismatch reason) rest.length 0

def faultError (input : List UInt8) : DecodeFault → JsonError
  | .placed cause unread back => ⟨cause, some (.of input (input.length - unread) back)⟩
  | .loose reason _ => ⟨.mismatch reason, none⟩

def readTree (room : Nat) (input : List UInt8) : Except DecodeFault (Json × List UInt8) :=
  match Json.read room input with
  | .ok result => .ok result
  | .error fault => .error fault.toDecodeFault

def readColon (input : List UInt8) : Except DecodeFault (List UInt8) :=
  match skipBlanks input with
  | [] => .error (malformed .endInObject [])
  | b :: rest => if b == colon then .ok rest else .error (malformed .expectedColon rest)

def readQuoted (input : List UInt8) : Except DecodeFault (String × List UInt8) :=
  match Json.Quoted.start.run input with
  | .ok result => .ok result
  | .error fault => .error fault.toDecodeFault

def decode (d : Decoder α) (input : List UInt8) : Except JsonError α :=
  match d.ofText Json.maxDepth input with
  | .error fault => .error (faultError input fault)
  | .ok (x, rest) =>
    match Json.trailing? rest with
    | some fault => .error (fault.toError input)
    | none => .ok x

def convert (d : Decoder α) (value : Json) : Except JsonError α :=
  match d.ofTree value with
  | .ok x => .ok x
  | .error reason => .error ⟨.mismatch reason, none⟩

def map (f : α → β) (d : Decoder α) : Decoder β where
  ofTree tree := (d.ofTree tree).map f
  ofText room input := (d.ofText room input).map fun (x, rest) => (f x, rest)

def value : Decoder Json where
  ofTree tree := .ok tree.canonical
  ofText room input := (readTree room input).map fun (tree, rest) => (tree.canonical, rest)

def whole (type : String) (accept : Json → Option α) : Decoder α where
  ofTree tree :=
    match accept tree with
    | some x => .ok x
    | none => .error (.noVariant type)
  ofText room input :=
    match readTree room input with
    | .error fault => .error fault
    | .ok (tree, rest) =>
      match accept tree with
      | some x => .ok (x, rest)
      | none => .error (.loose (.noVariant type) rest)

def wrongStart (room : Nat) (expected : String) (input : List UInt8) : DecodeFault :=
  match skipBlanks input with
  | [] => malformed .endInValue []
  | b :: rest =>
    if b == openBracket then mismatch (.wrongType .sequence expected) (b :: rest)
    else if b == openBrace then mismatch (.wrongType .map expected) (b :: rest)
    else match readTree room (b :: rest) with
      | .error fault => fault
      | .ok (tree, rest) => mismatch (.wrongType tree.found expected) rest

def scalar (expected : String) (accept : Json → Except DataError α) : Decoder α where
  ofTree := accept
  ofText room input :=
    match skipBlanks input with
    | [] => .error (malformed .endInValue [])
    | b :: rest =>
      if b == openBracket || b == openBrace then .error (wrongStart room expected (b :: rest))
      else match readTree room (b :: rest) with
        | .error fault => .error fault
        | .ok (tree, rest) =>
          match accept tree with
          | .ok x => .ok (x, rest)
          | .error reason => .error (mismatch reason rest)

def string : Decoder String :=
  scalar "a string" fun
    | .string text => .ok text
    | tree => .error (.wrongType tree.found "a string")

def int64 : Decoder Int64 :=
  scalar "i64" fun
    | .number (.integer value fits) =>
      if value < 0x8000000000000000 then .ok (Int64.ofInt value)
      else .error (.invalidValue (.number (.integer value fits)) "i64")
    | tree => .error (.wrongType tree.found "i64")

def unit : Decoder Unit :=
  scalar "unit" fun
    | .null => .ok ()
    | tree => .error (.wrongType tree.found "unit")

def optional (d : Decoder α) : Decoder (Option α) where
  ofTree
    | .null => .ok none
    | tree => (d.ofTree tree).map some
  ofText room input :=
    match skipBlanks input with
    | [] => .error (malformed .endInValue [])
    | b :: rest =>
      if b == byte 'n' then (readTree room (b :: rest)).map fun (_, rest) => (none, rest)
      else (d.ofText room (b :: rest)).map fun (x, rest) => (some x, rest)

end Decoder
end SocketRpc
