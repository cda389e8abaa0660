import SocketRpc.Json.Document
/-!
# Finding a reply in the bytes received

* Nothing marks where a reply ends, so `scan` looks whether the bytes hold one complete value.
* A number is complete only once a byte follows it: `12` may become `1234`.
* An array, an object or a text ends with its closing byte, and anything may follow it.
-/

namespace SocketRpc.Framing
open Ascii

inductive Verdict
  | complete (value : Json) (used : Nat)
  | incomplete
  | invalid

def isOpening (b : UInt8) : Bool := b == openBracket || b == openBrace || b == quote

/-- A byte that may stand right after a number, `null`, `true` or `false`. -/
def mayFollow (b : UInt8) : Bool :=
  isBlank b || isOpening b || b == closeBracket || b == closeBrace || b == comma || b == colon

def judge (first : UInt8) (value : Json) (used : Nat) : List UInt8 → Verdict
  | [] => if value.isNumber then .incomplete else .complete value.canonical used
  | b :: _ =>
    if isOpening first || mayFollow b then .complete value.canonical used else .invalid

def scan (received : List UInt8) : Verdict :=
  match skipBlanks received with
  | [] => .incomplete
  | first :: _ =>
    match Json.read Json.maxDepth received with
    | .ok (value, rest) => judge first value (received.length - rest.length) rest
    | .error fault => if fault.reason.isEnd then .incomplete else .invalid

end SocketRpc.Framing
