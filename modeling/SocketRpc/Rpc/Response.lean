import SocketRpc.Rpc.Error
import SocketRpc.Rpc.Id
import SocketRpc.Rpc.Version

namespace SocketRpc

structure Success where
  version : Option Version
  result : Json
  id : Option Id

structure Failure where
  version : Option Version
  error : RpcError
  id : Option Id

inductive Response
  | success (s : Success)
  | failure (f : Failure)

def versionMember (version : Option Version) : List (String × Json) :=
  (version.map fun version => ("jsonrpc", version.toJson)).toList

def idMember (id : Option Id) : String × Json :=
  ("id", match id with
    | some id => id.toJson
    | none => .null)

namespace Success

def ofResult (result : Json) (id : Id) : Success := ⟨some .v2, result, some id⟩

def toJson (s : Success) : Json :=
  .object (versionMember s.version ++ [("result", s.result), idMember s.id])

structure Draft where
  version : Option (Option Version)
  result : Option Json
  id : Option (Option Id)

def record : Record Draft Success where
  name := "Success"
  fields := [
    ⟨"jsonrpc", Version.decoder.optional.map fun version draft => { draft with version := some version }, true⟩,
    ⟨"result", Decoder.value.map fun result draft => { draft with result := some result }, true⟩,
    ⟨"id", Id.decoder.optional.map fun id draft => { draft with id := some id }, true⟩]
  empty := ⟨none, none, none⟩
  build draft := .ok ⟨draft.version.join, draft.result.getD .null, draft.id.join⟩

def decoder : Decoder Success := record.decoder

end Success

namespace Failure

def ofError (error : RpcError) (id : Option Id) : Failure := ⟨some .v2, error, id⟩

def toJson (f : Failure) : Json :=
  .object (versionMember f.version ++ [("error", f.error.toJson), idMember f.id])

structure Draft where
  version : Option (Option Version)
  error : Option RpcError
  id : Option (Option Id)

def record : Record Draft Failure where
  name := "Failure"
  fields := [
    ⟨"jsonrpc", Version.decoder.optional.map fun version draft => { draft with version := some version }, true⟩,
    ⟨"error", RpcError.decoder.map fun error draft => { draft with error := some error }, false⟩,
    ⟨"id", Id.decoder.optional.map fun id draft => { draft with id := some id }, true⟩]
  empty := ⟨none, none, none⟩
  build draft := do
    let error ← Field.required "error" draft.error
    return ⟨draft.version.join, error, draft.id.join⟩

def decoder : Decoder Failure := record.decoder

end Failure

namespace Response

def version : Response → Option Version
  | .success s => s.version
  | .failure f => f.version

def id : Response → Option Id
  | .success s => s.id
  | .failure f => f.id

def isSuccess : Response → Bool
  | .success _ => true
  | .failure _ => false

def result : Response → Except RpcError Json
  | .success s => .ok s.result
  | .failure f => .error f.error

def toJson : Response → Json
  | .success s => s.toJson
  | .failure f => f.toJson

def ofTree? (tree : Json) : Option Response :=
  match Success.decoder.ofTree tree with
  | .ok s => some (.success s)
  | .error _ =>
    match Failure.decoder.ofTree tree with
    | .ok f => some (.failure f)
    | .error _ => none

def decoder : Decoder Response := .whole "Response" ofTree?

end Response
end SocketRpc
