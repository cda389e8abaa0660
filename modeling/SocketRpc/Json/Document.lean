import SocketRpc.Json.Reader

namespace SocketRpc
open Ascii

def Fault.toError (input : List UInt8) (fault : Fault) : JsonError :=
  ⟨.malformed fault.reason, some (.of input (input.length - fault.unread) fault.back)⟩

namespace Json

def maxDepth : Nat := 127

def trailing? (rest : List UInt8) : Option Fault :=
  match skipBlanks rest with
  | [] => none
  | _ :: unread => some ⟨.trailingCharacters, unread.length, 0⟩

def parse (input : List UInt8) : Except JsonError Json :=
  match read maxDepth input with
  | .error fault => .error (fault.toError input)
  | .ok (value, rest) =>
    match trailing? rest with
    | some fault => .error (fault.toError input)
    | none => .ok value.canonical

end Json
end SocketRpc
