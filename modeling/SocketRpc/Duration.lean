import SocketRpc.Binary64.Basic

namespace SocketRpc

structure Duration where
  nanoseconds : Nat
deriving DecidableEq

namespace Duration

abbrev perSecond : Nat := 1000000000

def ofSeconds (seconds : Nat) : Duration := ⟨seconds * perSecond⟩

def wholeSeconds (d : Duration) : Nat := d.nanoseconds / perSecond

def subsecond (d : Duration) : Nat := d.nanoseconds % perSecond

def fraction (part places : Nat) : String :=
  let digits := (toString part).toList
  let padded := List.replicate (places - digits.length) '0' ++ digits
  match (padded.reverse.dropWhile (· == '0')).reverse with
  | [] => ""
  | kept => "." ++ String.ofList kept

def inUnit (n places : Nat) (unit : String) : String :=
  let one := Nat.pow 10 places
  toString (n / one) ++ fraction (n % one) places ++ unit

def text (d : Duration) : String :=
  let n := d.nanoseconds
  if 1000000000 ≤ n then inUnit n 9 "s"
  else if 1000000 ≤ n then inUnit n 6 "ms"
  else if 1000 ≤ n then inUnit n 3 "µs"
  else inUnit n 0 "ns"

/-- The nearest duration, or nothing for `2 ^ 64` seconds or more. The sign of the double is not
looked at. -/
def ofSeconds? (seconds : Binary64) : Option Duration :=
  let nanoseconds :=
    Binary64.roundQuotient (Binary64.units seconds.magnitude * perSecond) Binary64.unitsPerOne
  if nanoseconds < 0x10000000000000000 * perSecond then some ⟨nanoseconds⟩ else none

end Duration
end SocketRpc
