import SocketRpc.Binary64.Shortest
import SocketRpc.Json.Basic
import SocketRpc.Text.Quoted

namespace SocketRpc

inductive SyntaxError
  | endInList
  | endInObject
  | endInString
  | endInValue
  | expectedColon
  | expectedListEnd
  | expectedObjectEnd
  | expectedIdent
  | expectedValue
  | invalidEscape
  | invalidNumber
  | numberOutOfRange
  | invalidUnicode
  | controlCharacter
  | keyNotString
  | loneSurrogate
  | trailingComma
  | trailingCharacters
  | unfinishedSurrogate
  | tooDeep
deriving DecidableEq

namespace SyntaxError

def isEnd : SyntaxError → Bool
  | .endInList | .endInObject | .endInString | .endInValue => true
  | _ => false

def message : SyntaxError → String
  | .endInList => "EOF while parsing a list"
  | .endInObject => "EOF while parsing an object"
  | .endInString => "EOF while parsing a string"
  | .endInValue => "EOF while parsing a value"
  | .expectedColon => "expected `:`"
  | .expectedListEnd => "expected `,` or `]`"
  | .expectedObjectEnd => "expected `,` or `\x7d`"
  | .expectedIdent => "expected ident"
  | .expectedValue => "expected value"
  | .invalidEscape => "invalid escape"
  | .invalidNumber => "invalid number"
  | .numberOutOfRange => "number out of range"
  | .invalidUnicode => "invalid unicode code point"
  | .controlCharacter => "control character (\\u0000-\\u001F) found while parsing a string"
  | .keyNotString => "key must be a string"
  | .loneSurrogate => "lone leading surrogate in hex escape"
  | .trailingComma => "trailing comma"
  | .trailingCharacters => "trailing characters"
  | .unfinishedSurrogate => "unexpected end of hex escape"
  | .tooDeep => "recursion limit exceeded"

end SyntaxError

inductive Found
  | null
  | bool (value : Bool)
  | number (n : Number)
  | string (text : String)
  | sequence
  | map

inductive DataError
  | wrongType (found : Found) (expected : String)
  | invalidValue (found : Found) (expected : String)
  | invalidLength (length : Nat) (expected : String)
  | unknownVariant (name expected : String)
  | unknownField (name : String) (expected : List String)
  | duplicateField (name : String)
  | missingField (name : String)
  | noVariant (type : String)

def Json.found : Json → Found
  | .null => .null
  | .bool value => .bool value
  | .number n => .number n
  | .string text => .string text
  | .array _ => .sequence
  | .object _ => .map

def Found.text : Found → String
  | .null => "null"
  | .bool value => "boolean `" ++ toString value ++ "`"
  | .number (.integer value _) => "integer `" ++ toString value ++ "`"
  | .number (.double x) => "floating point `" ++ x.text ++ "`"
  | .string text => "string " ++ Text.quoted text
  | .sequence => "sequence"
  | .map => "map"

def ticked (name : String) : String := "`" ++ name ++ "`"

def oneOf : List String → String
  | [] => "there are no fields"
  | [a] => "expected " ++ ticked a
  | [a, b] => "expected " ++ ticked a ++ " or " ++ ticked b
  | names => "expected one of " ++ ", ".intercalate (names.map ticked)

def DataError.message : DataError → String
  | .wrongType found expected => "invalid type: " ++ found.text ++ ", expected " ++ expected
  | .invalidValue found expected => "invalid value: " ++ found.text ++ ", expected " ++ expected
  | .invalidLength length expected =>
    "invalid length " ++ toString length ++ ", expected " ++ expected
  | .unknownVariant name expected =>
    "unknown variant " ++ ticked name ++ ", expected " ++ ticked expected
  | .unknownField name expected => "unknown field " ++ ticked name ++ ", " ++ oneOf expected
  | .duplicateField name => "duplicate field " ++ ticked name
  | .missingField name => "missing field " ++ ticked name
  | .noVariant type => "data did not match any variant of untagged enum " ++ type

structure Position where
  line : Nat
  column : Nat
deriving DecidableEq

def Position.of (input : List UInt8) (offset back : Nat) : Position :=
  let before := input.take offset
  let column := (before.reverse.takeWhile (· != 0x0a)).length
  ⟨1 + before.count 0x0a, column - back⟩

/-- A fault in a text, with the count of the bytes that were left where it was met, and the columns
by which that place is moved back. -/
structure Fault where
  reason : SyntaxError
  unread : Nat
  back : Nat
deriving DecidableEq

inductive Cause
  | malformed (reason : SyntaxError)
  | mismatch (reason : DataError)

structure JsonError where
  cause : Cause
  position : Option Position

inductive Category
  | malformed
  | truncated
  | mismatch
deriving DecidableEq

namespace JsonError

def category (e : JsonError) : Category :=
  match e.cause with
  | .malformed reason => if reason.isEnd then .truncated else .malformed
  | .mismatch _ => .mismatch

def message (e : JsonError) : String :=
  let text := match e.cause with
    | .malformed reason => reason.message
    | .mismatch reason => reason.message
  match e.position with
  | none => text
  | some place =>
    text ++ " at line " ++ toString place.line ++ " column " ++ toString place.column

end JsonError
end SocketRpc
