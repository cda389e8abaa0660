import SocketRpc.Duration
import SocketRpc.Framing.Reply
import SocketRpc.Rpc.Id

namespace SocketRpc

inductive InvalidInput
  | emptyHost
  | zeroPort
  | zeroBufferSize
  | zeroResponseSize
  | zeroTimeout
  | emptyMethod
  | other (text : String)

inductive InvalidResponse
  | shape (reason : DataError)
  | otherId (expected got : Id)
  | other (text : String)

inductive Phase
  | connect
  | request
deriving DecidableEq

inductive ClientError
  | invalidInput (reason : InvalidInput)
  | encode (error : JsonError)
  | connection (address : String) (error : IoError)
  | timeout (phase : Phase) (after : Duration)
  | reply (error : Framing.ReplyError)
  | invalidResponse (reason : InvalidResponse)

inductive ErrorKind
  | invalidInput
  | connection
  | transport
  | timeout
  | protocol
deriving DecidableEq

namespace ErrorKind

def name : ErrorKind → String
  | .invalidInput => "invalid input"
  | .connection => "connection"
  | .transport => "transport"
  | .timeout => "timeout"
  | .protocol => "protocol"

def exitCode : ErrorKind → Nat
  | .invalidInput => 2
  | .connection => 3
  | .transport => 4
  | .timeout => 5
  | .protocol => 6

end ErrorKind

def ClientError.kind : ClientError → ErrorKind
  | .invalidInput _ | .encode _ => .invalidInput
  | .connection .. => .connection
  | .timeout .. => .timeout
  | .reply (.transport _) => .transport
  | .reply (.tooLarge _) | .reply (.malformed _) | .invalidResponse _ => .protocol

def InvalidInput.message : InvalidInput → String
  | .emptyHost => "host must not be empty"
  | .zeroPort => "port must be in 1..=65535"
  | .zeroBufferSize => "buffer size must be greater than zero"
  | .zeroResponseSize => "max response size must be greater than zero"
  | .zeroTimeout => "timeouts must be greater than zero"
  | .emptyMethod => "method must not be empty"
  | .other text => text

def InvalidResponse.message : InvalidResponse → String
  | .shape reason => reason.message
  | .otherId expected got => "expected id " ++ expected.display ++ ", got " ++ got.display
  | .other text => text

def Phase.name : Phase → String
  | .connect => "connect"
  | .request => "request"

def ClientError.message : ClientError → String
  | .invalidInput reason => "Invalid input: " ++ reason.message
  | .encode error => "Failed to encode request: " ++ error.message
  | .connection address error => "Failed to connect to " ++ address ++ ": " ++ error.message
  | .timeout phase after => phase.name ++ " timed out after " ++ after.text
  | .reply (.transport error) => "Transport error: " ++ error.message
  | .reply (.tooLarge limit) => "Response exceeds " ++ toString limit ++ " bytes"
  | .reply (.malformed error) => "Invalid JSON in response: " ++ error.message
  | .invalidResponse reason => "Invalid JSON-RPC response: " ++ reason.message

def ClientError.source : ClientError → Option String
  | .encode error | .reply (.malformed error) => some error.message
  | .connection _ error | .reply (.transport error) => some error.message
  | .invalidInput _ | .timeout .. | .reply (.tooLarge _) | .invalidResponse _ => none

end SocketRpc
