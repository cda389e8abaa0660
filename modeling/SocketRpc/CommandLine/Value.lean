import SocketRpc.Binary64.Literal
import SocketRpc.Duration
import SocketRpc.Json.Document
import SocketRpc.Rpc.Id
import SocketRpc.Rpc.Params
import SocketRpc.Text.Integer

namespace SocketRpc.CommandLine

inductive ValueError
  | integer (error : Text.IntegerError)
  | notPort (value : Int)
  | json (error : JsonError)
  | notParams
  | seconds (error : Binary64.LiteralError)
  | notPositive
  | tooLong

def ValueError.message : ValueError → String
  | .integer error => error.message
  | .notPort value => toString value ++ " is not in 0..=65535"
  | .json error => error.message
  | .notParams => "params must be a JSON array or object"
  | .seconds error => error.message
  | .notPositive => "expected a positive number of seconds"
  | .tooLong => "cannot convert float seconds to Duration: value is either too big or NaN"

def readParams (text : String) : Except ValueError Params :=
  match Json.parse (Utf8.bytes text) with
  | .error error => .error (.json error)
  | .ok value =>
    match Params.ofValue value with
    | .ok params => .ok params
    | .error _ => .error .notParams

def readId (text : String) : Id :=
  match Text.natural text with
  | .ok n => .number n.toUInt64
  | .error _ => .text text

def readSeconds (text : String) : Except ValueError Duration :=
  match Binary64.Literal.ofText text with
  | .error error => .error (.seconds error)
  | .ok literal =>
    match literal.value with
    | none => .error .notPositive
    | some x =>
      if x.negative || x.isZero then .error .notPositive
      else match Duration.ofSeconds? x with
        | some duration => .ok duration
        | none => .error .tooLong

def readPort (text : String) : Except ValueError Nat :=
  match Text.integer text with
  | .error error => .error (.integer error)
  | .ok value => if 0 ≤ value ∧ value < 65536 then .ok value.toNat else .error (.notPort value)

def readSize (text : String) : Except ValueError Nat :=
  match Text.natural text with
  | .error error => .error (.integer error)
  | .ok size => .ok size

end SocketRpc.CommandLine
