import SocketRpc.Decoder.Record

namespace SocketRpc

inductive ErrorCode
  | parseError
  | invalidRequest
  | methodNotFound
  | invalidParams
  | internalError
  | serverError (code : Int64)
deriving DecidableEq

namespace ErrorCode

def ofCode (code : Int64) : ErrorCode :=
  if code = -32700 then .parseError
  else if code = -32600 then .invalidRequest
  else if code = -32601 then .methodNotFound
  else if code = -32602 then .invalidParams
  else if code = -32603 then .internalError
  else .serverError code

def code : ErrorCode → Int64
  | .parseError => -32700
  | .invalidRequest => -32600
  | .methodNotFound => -32601
  | .invalidParams => -32602
  | .internalError => -32603
  | .serverError code => code

def description : ErrorCode → String
  | .parseError => "Parse error"
  | .invalidRequest => "Invalid request"
  | .methodNotFound => "Method not found"
  | .invalidParams => "Invalid params"
  | .internalError => "Internal error"
  | .serverError _ => "Server error"

def toJson (c : ErrorCode) : Json := Json.ofInt c.code

def decoder : Decoder ErrorCode := Decoder.int64.map ofCode

end ErrorCode

structure RpcError where
  code : ErrorCode
  message : String
  data : Option Json

namespace RpcError

def ofCode (code : ErrorCode) : RpcError := ⟨code, code.description, none⟩

def display (e : RpcError) : String := e.code.description ++ ": " ++ e.message

def toJson (e : RpcError) : Json :=
  .object ([("code", e.code.toJson), ("message", .string e.message)] ++
    (e.data.map fun data => ("data", data)).toList)

structure Draft where
  code : Option ErrorCode
  message : Option String
  data : Option (Option Json)

def record : Record Draft RpcError where
  name := "Error"
  fields := [
    ⟨"code", ErrorCode.decoder.map fun code draft => { draft with code := some code }, false⟩,
    ⟨"message", Decoder.string.map fun message draft => { draft with message := some message }, false⟩,
    ⟨"data", Decoder.value.optional.map fun data draft => { draft with data := some data }, false⟩]
  empty := ⟨none, none, none⟩
  build draft := do
    let code ← Field.required "code" draft.code
    let message ← Field.required "message" draft.message
    return ⟨code, message, draft.data.join⟩

def decoder : Decoder RpcError := record.decoder

end RpcError
end SocketRpc
