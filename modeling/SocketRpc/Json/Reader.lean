import SocketRpc.Json.Numeral
import SocketRpc.Json.Quoted
/-!
# Reading a JSON value, byte by byte

* `Reader` is the state of reading one value: what is due next, and the open containers around it.
* `Reader.step` takes one byte. The value ends with a byte or, for a number, before one.
* `Reader.run` reads from a list of bytes until the value has ended, and gives the bytes after it.
* A fault says how many bytes were left where it was met, so it does not depend on what came before.
-/

namespace SocketRpc.Json
open Ascii

/-- An open container around the value that is being read; what it holds comes last first. -/
inductive Frame
  | items (read : List Json)
  | members (read : List (String × Json)) (key : String)

inductive Mode
  | value
  | firstItem
  | afterItem (read : List Json)
  | nextItem (read : List Json)
  | firstKey
  | nextKey (read : List (String × Json))
  | key (read : List (String × Json)) (text : Quoted)
  | colon (read : List (String × Json)) (key : String)
  | afterMember (read : List (String × Json))
  | literal (due : List UInt8) (value : Json)
  | number (numeral : Numeral)
  | string (text : Quoted)

structure Reader where
  mode : Mode
  stack : List Frame

inductive Move
  | more (next : Reader)
  | done (value : Json)
  | doneBefore (value : Json)
  | refused (reason : SyntaxError) (back : Nat)
  | refusedBefore (reason : SyntaxError)

namespace Reader

def start : Reader := ⟨.value, []⟩

def settle (value : Json) : List Frame → Move
  | [] => .done value
  | .items read :: stack => .more ⟨.afterItem (value :: read), stack⟩
  | .members read key :: stack => .more ⟨.afterMember ((key, value) :: read), stack⟩

def stepAfterItem (read : List Json) (stack : List Frame) (b : UInt8) : Move :=
  if isBlank b then .more ⟨.afterItem read, stack⟩
  else if b == comma then .more ⟨.nextItem read, stack⟩
  else if b == closeBracket then settle (.array read.reverse) stack
  else .refused .expectedListEnd 0

def stepAfterMember (read : List (String × Json)) (stack : List Frame) (b : UInt8) : Move :=
  if isBlank b then .more ⟨.afterMember read, stack⟩
  else if b == comma then .more ⟨.nextKey read, stack⟩
  else if b == closeBrace then settle (.object read.reverse) stack
  else .refused .expectedObjectEnd 0

def begin (room : Nat) (stack : List Frame) (b : UInt8) : Move :=
  if b == quote then .more ⟨.string .start, stack⟩
  else if b == openBracket then
    if stack.length < room then .more ⟨.firstItem, stack⟩ else .refused .tooDeep 0
  else if b == openBrace then
    if stack.length < room then .more ⟨.firstKey, stack⟩ else .refused .tooDeep 0
  else if b == minus then .more ⟨.number ⟨true, .sign⟩, stack⟩
  else if b == byte '0' then .more ⟨.number ⟨false, .zero⟩, stack⟩
  else if isDigit b then .more ⟨.number ⟨false, .whole (digit b)⟩, stack⟩
  else if b == byte 'n' then .more ⟨.literal ("ull".toList.map byte) .null, stack⟩
  else if b == byte 't' then .more ⟨.literal ("rue".toList.map byte) (.bool true), stack⟩
  else if b == byte 'f' then .more ⟨.literal ("alse".toList.map byte) (.bool false), stack⟩
  else .refused .expectedValue 0

def stepNumber (numeral : Numeral) (stack : List Frame) (b : UInt8) : Move :=
  match numeral.step b with
  | .more next => .more ⟨.number next, stack⟩
  | .refused reason => .refused reason 0
  | .ended =>
    match numeral.value with
    | .error reason => .refusedBefore reason
    | .ok n =>
      match stack with
      | [] => .doneBefore (.number n)
      | .items read :: stack => stepAfterItem (.number n :: read) stack b
      | .members read key :: stack => stepAfterMember ((key, .number n) :: read) stack b

def stepQuoted (text : Quoted) (more : Quoted → Move) (closed : String → Move) (b : UInt8) : Move :=
  match text.step b with
  | .more next => more next
  | .refused reason => .refused reason 0
  | .closed content =>
    match Utf8.text? content with
    | some s => closed s
    | none => .refused .invalidUnicode (Quoted.invalidLength content)

def step (room : Nat) (r : Reader) (b : UInt8) : Move :=
  let stay : Move := .more r
  match r.mode with
  | .value => if isBlank b then stay else begin room r.stack b
  | .firstItem =>
    if isBlank b then stay
    else if b == closeBracket then settle (.array []) r.stack
    else begin room (.items [] :: r.stack) b
  | .nextItem read =>
    if isBlank b then stay
    else if b == closeBracket then .refused .trailingComma 0
    else begin room (.items read :: r.stack) b
  | .afterItem read => stepAfterItem read r.stack b
  | .firstKey =>
    if isBlank b then stay
    else if b == quote then .more ⟨.key [] .start, r.stack⟩
    else if b == closeBrace then settle (.object []) r.stack
    else .refused .keyNotString 0
  | .nextKey read =>
    if isBlank b then stay
    else if b == quote then .more ⟨.key read .start, r.stack⟩
    else if b == closeBrace then .refused .trailingComma 0
    else .refused .keyNotString 0
  | .key read text =>
    stepQuoted text (fun next => .more ⟨.key read next, r.stack⟩)
      (fun key => .more ⟨.colon read key, r.stack⟩) b
  | .colon read key =>
    if isBlank b then stay
    else if b == Ascii.colon then .more ⟨.value, .members read key :: r.stack⟩
    else .refused .expectedColon 0
  | .afterMember read => stepAfterMember read r.stack b
  | .literal due value =>
    match due with
    | [] => settle value r.stack
    | [last] => if b == last then settle value r.stack else .refused .expectedIdent 0
    | next :: due =>
      if b == next then .more ⟨.literal due value, r.stack⟩ else .refused .expectedIdent 0
  | .number numeral => stepNumber numeral r.stack b
  | .string text =>
    stepQuoted text (fun next => .more ⟨.string next, r.stack⟩)
      (fun s => settle (.string s) r.stack) b

def endAround : List Frame → Option SyntaxError
  | [] => none
  | .items _ :: _ => some .endInList
  | .members .. :: _ => some .endInObject

def finish (r : Reader) : Except SyntaxError Json :=
  match r.mode with
  | .value | .nextItem _ | .nextKey _ | .literal .. => .error .endInValue
  | .firstItem | .afterItem _ => .error .endInList
  | .firstKey | .colon .. | .afterMember _ => .error .endInObject
  | .key .. | .string _ => .error .endInString
  | .number numeral =>
    match numeral.value with
    | .error reason => .error reason
    | .ok n =>
      match endAround r.stack with
      | none => .ok (.number n)
      | some reason => .error reason

def run (room : Nat) (r : Reader) : List UInt8 → Except Fault (Json × List UInt8)
  | [] =>
    match r.finish with
    | .ok value => .ok (value, [])
    | .error reason => .error ⟨reason, 0, 0⟩
  | b :: rest =>
    match r.step room b with
    | .more next => next.run room rest
    | .done value => .ok (value, rest)
    | .doneBefore value => .ok (value, b :: rest)
    | .refused reason back => .error ⟨reason, rest.length, back⟩
    | .refusedBefore reason => .error ⟨reason, rest.length + 1, 0⟩

end Reader

def read (room : Nat) (input : List UInt8) : Except Fault (Json × List UInt8) :=
  Reader.start.run room input

end SocketRpc.Json
