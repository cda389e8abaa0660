import SocketRpc.Framing.Stream
import SocketRpc.Json.Document

namespace SocketRpc

abbrev Peer := List UInt8 → Bool → Framing.Stream

inductive Connection
  | accepted (peer : Peer)
  | failed (error : IoError)
  | timedOut

abbrev Network := String → Nat → Connection

def Network.unreachable : Network := fun _ _ => .failed .networkUnreachable

namespace Peer

inductive Wait
  | json
  | close

inductive Finish
  | close
  | hold
  | reset

structure Script where
  wait : Wait
  reply : List UInt8 → List UInt8
  finish : Finish

def Wait.satisfied (wait : Wait) (request : List UInt8) (halfClosed : Bool) : Bool :=
  match wait with
  | .json => halfClosed || (Json.parse request).toBool
  | .close => halfClosed

def Script.peer (script : Script) : Peer := fun request halfClosed =>
  match script.finish with
  | .reset => ⟨[], .fail .connectionReset⟩
  | .close | .hold =>
    if script.wait.satisfied request halfClosed then
      let reply := script.reply request
      let chunks := if reply.isEmpty then [] else [reply]
      match script.finish with
      | .hold => ⟨chunks, .wait⟩
      | _ => ⟨chunks, .close⟩
    else ⟨[], .wait⟩

end Peer
end SocketRpc
