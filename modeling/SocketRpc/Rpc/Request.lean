import SocketRpc.Decoder.Record
import SocketRpc.Rpc.Id
import SocketRpc.Rpc.Params
import SocketRpc.Rpc.Version

namespace SocketRpc

structure Request where
  version : Option Version
  method : String
  params : Option Params
  id : Option Id

namespace Request

def bare (method : String) (params : Option Params) : Request := ⟨none, method, params, none⟩

def call (method : String) (params : Option Params) (id : Id) : Request :=
  ⟨some .v2, method, params, some id⟩

def withId (request : Request) (id : Id) : Request := { request with id := some id }

def withVersion (request : Request) : Request := { request with version := some .v2 }

def toJson (request : Request) : Json :=
  .object (
    (request.version.map fun version => ("jsonrpc", version.toJson)).toList ++
    [("method", .string request.method)] ++
    (request.params.map fun params => ("params", params.toJson)).toList ++
    (request.id.map fun id => ("id", id.toJson)).toList)

structure Draft where
  version : Option (Option Version)
  method : Option String
  params : Option (Option Params)
  id : Option (Option Id)

def record : Record Draft Request where
  name := "Request"
  fields := [
    ⟨"jsonrpc", Version.decoder.optional.map fun version draft => { draft with version := some version }, true⟩,
    ⟨"method", Decoder.string.map fun method draft => { draft with method := some method }, false⟩,
    ⟨"params", Params.decoder.optional.map fun params draft => { draft with params := some params }, true⟩,
    ⟨"id", Id.decoder.optional.map fun id draft => { draft with id := some id }, true⟩]
  empty := ⟨none, none, none, none⟩
  build draft := do
    let method ← Field.required "method" draft.method
    return ⟨draft.version.join, method, draft.params.join, draft.id.join⟩

def decoder : Decoder Request := record.decoder

end Request
end SocketRpc
