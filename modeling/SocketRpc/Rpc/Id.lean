import SocketRpc.Decoder.Basic

namespace SocketRpc

inductive Id
  | number (n : UInt64)
  | text (s : String)
deriving DecidableEq

namespace Id

def toJson : Id → Json
  | .number n => Json.ofNat n
  | .text s => .string s

def ofTree? : Json → Option Id
  | .number (.integer value _) => if 0 ≤ value then some (.number value.toNat.toUInt64) else none
  | .string s => some (.text s)
  | _ => none

def decoder : Decoder Id := .whole "Id" ofTree?

def display : Id → String
  | .number n => toString n.toNat
  | .text s => s

end Id
end SocketRpc
