import SocketRpc.Text.Ascii
/-!
# Where a value may end

* `Boundary` follows the nesting and the quotes of the bytes as they come in, and nothing else.
* `Boundary.feed` says whether any byte of a chunk may end the outermost value. Only then is it worth
  inspecting all the bytes again.
-/

namespace SocketRpc.Framing
open Ascii

structure Boundary where
  depth : Nat
  inString : Bool
  escaped : Bool
deriving DecidableEq

namespace Boundary

def start : Boundary := ⟨0, false, false⟩

def step (s : Boundary) (b : UInt8) : Boundary × Bool :=
  if s.inString then
    if s.escaped then ({ s with escaped := false }, false)
    else if b == backslash then ({ s with escaped := true }, false)
    else if b == quote then ({ s with inString := false }, s.depth == 0)
    else (s, false)
  else if b == quote then ({ s with inString := true }, false)
  else if b == openBrace || b == openBracket then ({ s with depth := s.depth + 1 }, false)
  else if b == closeBrace || b == closeBracket then
    ({ s with depth := s.depth - 1 }, s.depth - 1 == 0)
  else (s, s.depth == 0)

def feed (s : Boundary) : List UInt8 → Boundary × Bool
  | [] => (s, false)
  | b :: rest =>
    let (next, ends) := s.step b
    let (last, later) := next.feed rest
    (last, ends || later)

end Boundary
end SocketRpc.Framing
