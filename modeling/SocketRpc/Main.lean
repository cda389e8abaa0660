import SocketRpc.CommandLine.Run
import Std.Async.DNS
import Std.Async.TCP
import Std.Async.Timer
/-!
# The program on real sockets

Looks up the host, connects, writes the request and reads the reply, each within its time. All that
is decided on the way is decided by the library.
-/

namespace SocketRpc.CommandLine
open Std Async

def within {α : Type} (phase : Phase) (limit : Duration) (work : Async (Except ClientError α)) :
    Async (Except ClientError α) := do
  let outOfTime : Except ClientError α := .error (.timeout phase limit)
  let milliseconds := Time.Millisecond.Offset.ofNat (limit.nanoseconds / 1000000 + 1)
  letI : Inhabited (Except ClientError α) := ⟨outOfTime⟩
  Async.race work do
    sleep milliseconds
    return outOfTime

def failureOf (thrown : IO.Error) : IoError :=
  let text := toString thrown
  let known : List (String × IoError) := [
    ("connection refused", .connectionRefused),
    ("connection reset by peer", .connectionReset),
    ("network is unreachable", .networkUnreachable)]
  match known.find? fun (words, _) => (text.splitOn words).length > 1 with
  | some (_, failure) => failure
  | none => .other text

def guarded {α : Type} (error : IoError → ClientError) (work : Async α) :
    Async (Except ClientError α) := do
  try
    let result ← work
    return .ok result
  catch thrown => return .error (error (failureOf thrown))

def connectTo (port : UInt16) (addresses : List Net.IPAddr) (last : IO.Error) :
    Async TCP.Socket.Client :=
  match addresses with
  | [] => throw last
  | address :: others => do
    let socket ← TCP.Socket.Client.mk
    try
      match address with
      | .v4 address => socket.connect (.v4 ⟨address, port⟩)
      | .v6 address => socket.connect (.v6 ⟨address, port⟩)
      return socket
    catch thrown => connectTo port others thrown

def connect (client : Client) : Async TCP.Socket.Client := do
  let addresses ← DNS.getAddrInfo client.host (toString client.port)
  connectTo client.port.toUInt16 addresses.toList
    (IO.userError "could not resolve to any address")

def receipt (socket : TCP.Socket.Client) (want : Nat) : Async Framing.Receipt := do
  try
    let bytes ← socket.recv? want.toUInt64
    return .bytes ((bytes.map fun bytes => bytes.toList).getD [])
  catch thrown => return .failed (failureOf thrown)

def receive (client : Client) (socket : TCP.Socket.Client) : Async (Except ClientError Json) := do
  let transcript ← Framing.Progress.start.readWith (receipt socket) client.settings.bufferSize
    client.settings.maxResponseSize
  return client.answerOf transcript.outcome

def talk (client : Client) (socket : TCP.Socket.Client) (request : List UInt8) :
    Async (Except ClientError Json) := do
  let written ← guarded (fun error => .reply (.transport error)) do
    socket.send ⟨request.toArray⟩
    if client.settings.shutdownWrite then socket.shutdown
  match written with
  | .error error => return .error error
  | .ok _ => receive client socket

def exchange (client : Client) (request : List UInt8) : Async Exchange := do
  let refused (error : IoError) : ClientError := .connection client.address error
  let connected ← within .connect client.settings.connectTimeout (guarded refused (connect client))
  match connected with
  | .error error => return ⟨.error error, none⟩
  | .ok socket =>
    let answer ← within .request client.settings.timeout (talk client socket request)
    return ⟨answer, some request⟩

def Report.write (report : Report) : IO UInt32 := do
  let stdout ← IO.getStdout
  stdout.write ⟨report.stdout.toArray⟩
  stdout.flush
  let stderr ← IO.getStderr
  stderr.putStr report.stderr
  return report.exitCode.toUInt32

def readEnvironment : IO (String → Option String) := do
  let names := Setting.all.filterMap Setting.variableName?
  let values ← names.mapM fun name => return (name, ← IO.getEnv name)
  return fun name => (values.lookup name).join

end SocketRpc.CommandLine

open SocketRpc SocketRpc.CommandLine

def main (arguments : List String) : IO UInt32 := do
  let environment ← readEnvironment
  match parse environment arguments with
  | .error stop => (Report.ofStop stop).write
  | .ok given =>
    match given.prepare with
    | .error error => (Report.ofError error none).write
    | .ok (request, client) =>
      let body := request.toJson.write
      let stdout ← IO.getStdout
      stdout.write ⟨(line body).toArray⟩
      stdout.flush
      let outcome ← (exchange client body).block
      (Report.ofExchange outcome).write
