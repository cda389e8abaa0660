import SocketRpc.Client.Settings
import SocketRpc.CommandLine.Value
import SocketRpc.Text.Plain

namespace SocketRpc.CommandLine

inductive Flag
  | jsonrpc
  | shutdownWrite
deriving DecidableEq

inductive Setting
  | params
  | id
  | host
  | port
  | bufferSize
  | maxResponseSize
  | timeout
  | connectTimeout
deriving DecidableEq

namespace Flag

def all : List Flag := [.jsonrpc, .shutdownWrite]

def name : Flag → String
  | .jsonrpc => "jsonrpc"
  | .shutdownWrite => "shutdown-write"

def shown (f : Flag) : String := "--" ++ f.name

end Flag

namespace Setting

def all : List Setting :=
  [.params, .id, .host, .port, .bufferSize, .maxResponseSize, .timeout, .connectTimeout]

def name : Setting → String
  | .params => "params"
  | .id => "id"
  | .host => "host"
  | .port => "port"
  | .bufferSize => "buffer-size"
  | .maxResponseSize => "max-response-size"
  | .timeout => "timeout"
  | .connectTimeout => "connect-timeout"

def shown (s : Setting) : String :=
  let placeholder := s.name.toList.map fun c => if c = '-' then '_' else c.toUpper
  "--" ++ s.name ++ " <" ++ String.ofList placeholder ++ ">"

def variableName? : Setting → Option String
  | .params | .id => none
  | .host => some "JSONRPC_HOST"
  | .port => some "JSONRPC_PORT"
  | .bufferSize => some "JSONRPC_BUFFER_SIZE"
  | .maxResponseSize => some "JSONRPC_MAX_RESPONSE_SIZE"
  | .timeout => some "JSONRPC_TIMEOUT_SECS"
  | .connectTimeout => some "JSONRPC_CONNECT_TIMEOUT_SECS"

end Setting

inductive UsageError
  | invalidValue (value : String) (setting : Setting) (reason : ValueError)
  | missingValue (setting : Setting)
  | unexpectedArgument (argument : String)
  | unexpectedValue (value option : String)
  | repeated (option : String)
  | missingMethod

def UsageError.message : UsageError → String
  | .invalidValue value setting reason =>
    "invalid value '" ++ Text.plain value ++ "' for '" ++ setting.shown ++ "': " ++ reason.message
  | .missingValue setting =>
    "a value is required for '" ++ setting.shown ++ "' but none was supplied"
  | .unexpectedArgument argument => "unexpected argument '" ++ Text.plain argument ++ "' found"
  | .unexpectedValue value option =>
    "unexpected value '" ++ Text.plain value ++ "' for '" ++ option ++ "' found; no more were expected"
  | .repeated option => "the argument '" ++ option ++ "' cannot be used multiple times"
  | .missingMethod => "the following required arguments were not provided:"

structure Given where
  method : Option String := none
  params : Option Params := none
  id : Option Id := none
  host : Option String := none
  port : Option Nat := none
  bufferSize : Option Nat := none
  maxResponseSize : Option Nat := none
  timeout : Option Duration := none
  connectTimeout : Option Duration := none
  jsonrpc : Bool := false
  shutdownWrite : Bool := false

namespace Given

def hasFlag (g : Given) : Flag → Bool
  | .jsonrpc => g.jsonrpc
  | .shutdownWrite => g.shutdownWrite

def has (g : Given) : Setting → Bool
  | .params => g.params.isSome
  | .id => g.id.isSome
  | .host => g.host.isSome
  | .port => g.port.isSome
  | .bufferSize => g.bufferSize.isSome
  | .maxResponseSize => g.maxResponseSize.isSome
  | .timeout => g.timeout.isSome
  | .connectTimeout => g.connectTimeout.isSome

def setFlag (g : Given) (flag : Flag) : Except UsageError Given :=
  if g.hasFlag flag then .error (.repeated flag.shown)
  else match flag with
    | .jsonrpc => .ok { g with jsonrpc := true }
    | .shutdownWrite => .ok { g with shutdownWrite := true }

def read (g : Given) (setting : Setting) (value : String) : Except ValueError Given :=
  match setting with
  | .params => (readParams value).map fun params => { g with params := some params }
  | .id => .ok { g with id := some (readId value) }
  | .host => .ok { g with host := some value }
  | .port => (readPort value).map fun port => { g with port := some port }
  | .bufferSize => (readSize value).map fun size => { g with bufferSize := some size }
  | .maxResponseSize => (readSize value).map fun size => { g with maxResponseSize := some size }
  | .timeout => (readSeconds value).map fun timeout => { g with timeout := some timeout }
  | .connectTimeout =>
    (readSeconds value).map fun timeout => { g with connectTimeout := some timeout }

def set (g : Given) (setting : Setting) (value : String) : Except UsageError Given :=
  if g.has setting then .error (.repeated setting.shown)
  else match g.read setting value with
    | .ok next => .ok next
    | .error reason => .error (.invalidValue value setting reason)

def addEnvironment (environment : String → Option String) (g : Given) :
    List Setting → Except UsageError Given
  | [] => .ok g
  | setting :: rest =>
    match setting.variableName?.bind environment with
    | some value =>
      if g.has setting then g.addEnvironment environment rest
      else match g.set setting value with
        | .ok next => next.addEnvironment environment rest
        | .error error => .error error
    | none => g.addEnvironment environment rest

end Given

structure Arguments where
  method : String
  params : Option Params
  id : Option Id
  jsonrpc : Bool
  host : String
  port : Nat
  settings : Settings

def Given.complete (g : Given) : Except UsageError Arguments :=
  match g.method with
  | none => .error .missingMethod
  | some method =>
    let defaults : Settings := {}
    .ok {
      method
      params := g.params
      id := g.id
      jsonrpc := g.jsonrpc
      host := g.host.getD "127.0.0.1"
      port := g.port.getD 1234
      settings := {
        bufferSize := g.bufferSize.getD defaults.bufferSize
        maxResponseSize := g.maxResponseSize.getD defaults.maxResponseSize
        timeout := g.timeout.getD defaults.timeout
        connectTimeout := g.connectTimeout.getD defaults.connectTimeout
        shutdownWrite := g.shutdownWrite } }

end SocketRpc.CommandLine
