import SocketRpc.Client.Error
import SocketRpc.Text.Blank

namespace SocketRpc

structure Settings where
  /-- A buffer of so many bytes is taken to be there. The program would end without an answer if it could not
  be allocated. -/
  bufferSize : Nat := 2048
  maxResponseSize : Nat := 1024 * 1024
  timeout : Duration := .ofSeconds 30
  connectTimeout : Duration := .ofSeconds 10
  shutdownWrite : Bool := false

namespace Settings

def refusal? (settings : Settings) (host : String) (port : Nat) : Option InvalidInput :=
  if Text.allBlank host then some .emptyHost
  else if port = 0 then some .zeroPort
  else if settings.bufferSize = 0 then some .zeroBufferSize
  else if settings.maxResponseSize = 0 then some .zeroResponseSize
  else if settings.timeout.nanoseconds = 0 ∨ settings.connectTimeout.nanoseconds = 0 then
    some .zeroTimeout
  else none

end Settings

structure Client where
  host : String
  port : Nat
  settings : Settings
  accepted : settings.refusal? host port = none

namespace Client

def build (settings : Settings) (host : String) (port : Nat) : Except ClientError Client :=
  match refusal : settings.refusal? host port with
  | none => .ok ⟨host, port, settings, refusal⟩
  | some reason => .error (.invalidInput reason)

def address (client : Client) : String := client.host ++ ":" ++ toString client.port

theorem settings_positive (client : Client) :
    0 < client.settings.bufferSize ∧ 0 < client.settings.maxResponseSize := by
  have accepted := client.accepted
  unfold Settings.refusal? at accepted
  grind

end Client
end SocketRpc
