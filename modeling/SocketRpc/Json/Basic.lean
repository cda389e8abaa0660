import SocketRpc.Binary64.Basic
/-!
# JSON trees

* `Json` keeps the members of an object in the order they were written, repeated keys included.
* `canonical` gives the value a tree stands for: the last member of a key counts, and members are
  sorted by key.
* Two trees stand for the same value exactly if their canonical forms are equal.
-/

namespace SocketRpc

inductive Number
  | integer (value : Int) (fits : -0x8000000000000000 ≤ value ∧ value < 0x10000000000000000)
  | double (x : Binary64)
deriving DecidableEq

inductive Json
  | null
  | bool (value : Bool)
  | number (n : Number)
  | string (text : String)
  | array (items : List Json)
  | object (members : List (String × Json))

namespace Json

def isNumber : Json → Bool
  | .number _ => true
  | _ => false

def ofNat (n : UInt64) : Json :=
  .number (.integer n.toNat ⟨by omega, by have := n.toNat_lt; omega⟩)

def ofInt (n : Int64) : Json :=
  .number (.integer n.toInt ⟨Int64.le_toInt n, by have := Int64.toInt_lt n; omega⟩)

/-- Puts a member in its place among sorted ones, unless its key is there already. -/
def insertAbsent (key : String) (value : Json) : List (String × Json) → List (String × Json)
  | [] => [(key, value)]
  | (k, v) :: rest =>
    if key < k then (key, value) :: (k, v) :: rest
    else if key = k then (k, v) :: rest
    else (k, v) :: insertAbsent key value rest

mutual

def canonical : Json → Json
  | .array items => .array (canonicalItems items)
  | .object members => .object (canonicalMembers members)
  | .null => .null
  | .bool value => .bool value
  | .number n => .number n
  | .string text => .string text

def canonicalItems : List Json → List Json
  | [] => []
  | item :: rest => canonical item :: canonicalItems rest

/-- Members are put in from the last to the first, so the last one of a key stays. -/
def canonicalMembers : List (String × Json) → List (String × Json)
  | [] => []
  | (key, value) :: rest => insertAbsent key (canonical value) (canonicalMembers rest)

end

mutual

def depth : Json → Nat
  | .array items => depthItems items + 1
  | .object members => depthMembers members + 1
  | .null | .bool _ | .number _ | .string _ => 0

def depthItems : List Json → Nat
  | [] => 0
  | item :: rest => max (depth item) (depthItems rest)

def depthMembers : List (String × Json) → Nat
  | [] => 0
  | (_, value) :: rest => max (depth value) (depthMembers rest)

end

end Json
end SocketRpc
