import SocketRpc.IoError

namespace SocketRpc.Framing

inductive Ending
  | close
  | wait
  | fail (error : IoError)

structure Stream where
  chunks : List (List UInt8)
  ending : Ending

inductive Receipt
  | bytes (received : List UInt8)
  | waiting
  | failed (error : IoError)

namespace Stream

def receive (want : Nat) (s : Stream) : Receipt × Stream :=
  match s.chunks with
  | [] =>
    match s.ending with
    | .close => (.bytes [], s)
    | .wait => (.waiting, s)
    | .fail error => (.failed error, s)
  | chunk :: rest =>
    let left := chunk.drop want
    (.bytes (chunk.take want), { s with chunks := if left.isEmpty then rest else left :: rest })

end Stream
end SocketRpc.Framing
