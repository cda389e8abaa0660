import SocketRpc.Decoder.Basic

namespace SocketRpc

inductive Params
  | array (items : List Json)
  | map (members : List (String × Json))

namespace Params

def empty : Params := .array []

def toJson : Params → Json
  | .array items => .array items
  | .map members => .object members

def ofValue : Json → Except Json Params
  | .array items => .ok (.array items)
  | .object members => .ok (.map members)
  | other => .error other

/-- Puts a member in its place among sorted ones, over the one of its key. -/
def insertOver (key : String) (value : Json) : List (String × Json) → List (String × Json)
  | [] => [(key, value)]
  | (k, v) :: rest =>
    if key < k then (key, value) :: (k, v) :: rest
    else if key = k then (key, value) :: rest
    else (k, v) :: insertOver key value rest

def sequence? : Json → Option (List Json)
  | .array items => some (items.map Json.canonical)
  | _ => none

def mapping? : Json → Option (List (String × Json))
  | .object members => some (members.foldl (fun kept m => insertOver m.1 m.2.canonical kept) [])
  | _ => none

def ofTree? (tree : Json) : Option Params :=
  match sequence? tree with
  | some items => some (.array items)
  | none => (mapping? tree).map .map

def decoder : Decoder Params := .whole "Params" ofTree?

def isArray : Params → Bool
  | .array _ => true
  | .map _ => false

def isMap : Params → Bool
  | .array _ => false
  | .map _ => true

def isEmptyArray : Params → Bool
  | .array items => items.isEmpty
  | .map _ => false

end Params
end SocketRpc
