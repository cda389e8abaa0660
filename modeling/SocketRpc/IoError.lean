namespace SocketRpc

inductive IoError
  | closedEarly
  | connectionReset
  | connectionRefused
  | networkUnreachable
  | other (text : String)
deriving DecidableEq

def IoError.message : IoError → String
  | .closedEarly => "connection closed before any response bytes"
  | .connectionReset => "Connection reset by peer (os error 104)"
  | .connectionRefused => "Connection refused (os error 111)"
  | .networkUnreachable => "Network is unreachable (os error 101)"
  | .other text => text

end SocketRpc
