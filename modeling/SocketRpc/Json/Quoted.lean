import SocketRpc.Json.Error
import SocketRpc.Text.Ascii
import SocketRpc.Text.Utf8

namespace SocketRpc.Json
open Ascii

inductive Place
  | plain
  | escape
  | codeUnit (digits : List UInt8)
  | afterHigh (high : Nat)
  | afterHighEscape (high : Nat)
  | lowUnit (high : Nat) (digits : List UInt8)
deriving DecidableEq

structure Quoted where
  content : List UInt8
  place : Place
deriving DecidableEq

inductive QuotedMove
  | more (next : Quoted)
  | closed (content : List UInt8)
  | refused (reason : SyntaxError)

namespace Quoted

def start : Quoted := ⟨[], .plain⟩

def escaped? (letter : UInt8) : Option UInt8 :=
  if letter == quote then some quote
  else if letter == backslash then some backslash
  else if letter == slash then some slash
  else if letter == byte 'b' then some backspace
  else if letter == byte 'f' then some formFeed
  else if letter == byte 'n' then some newline
  else if letter == byte 'r' then some carriageReturn
  else if letter == byte 't' then some tab
  else none

def codeUnit? : List UInt8 → Option Nat
  | [] => some 0
  | last :: earlier => do
    let high ← codeUnit? earlier
    let low ← hexDigit? last
    return high * 16 + low

def isHigh (codeUnit : Nat) : Bool := 0xd800 ≤ codeUnit && codeUnit ≤ 0xdbff

def isLow (codeUnit : Nat) : Bool := 0xdc00 ≤ codeUnit && codeUnit ≤ 0xdfff

def push (q : Quoted) (codePoint : Nat) : Quoted :=
  ⟨(String.utf8EncodeChar (Char.ofNat codePoint)).reverse ++ q.content, .plain⟩

def endUnit (q : Quoted) (digits : List UInt8) : QuotedMove :=
  match codeUnit? digits with
  | none => .refused .invalidEscape
  | some codeUnit =>
    if isLow codeUnit then .refused .loneSurrogate
    else if isHigh codeUnit then .more { q with place := .afterHigh codeUnit }
    else .more (q.push codeUnit)

def endPair (q : Quoted) (high : Nat) (digits : List UInt8) : QuotedMove :=
  match codeUnit? digits with
  | none => .refused .invalidEscape
  | some low =>
    if isLow low then .more (q.push (0x10000 + (high - 0xd800) * 0x400 + (low - 0xdc00)))
    else .refused .loneSurrogate

def step (q : Quoted) (b : UInt8) : QuotedMove :=
  match q.place with
  | .plain =>
    if b == quote then .closed q.content.reverse
    else if b == backslash then .more { q with place := .escape }
    else if b < 0x20 then .refused .controlCharacter
    else .more { q with content := b :: q.content }
  | .escape =>
    if b == byte 'u' then .more { q with place := .codeUnit [] }
    else match escaped? b with
      | some c => .more ⟨c :: q.content, .plain⟩
      | none => .refused .invalidEscape
  | .codeUnit digits =>
    if digits.length < 3 then .more { q with place := .codeUnit (b :: digits) }
    else q.endUnit (b :: digits)
  | .afterHigh high =>
    if b == backslash then .more { q with place := .afterHighEscape high }
    else .refused .unfinishedSurrogate
  | .afterHighEscape high =>
    if b == byte 'u' then .more { q with place := .lowUnit high [] }
    else .refused .unfinishedSurrogate
  | .lowUnit high digits =>
    if digits.length < 3 then .more { q with place := .lowUnit high (b :: digits) }
    else q.endPair high (b :: digits)

def invalidLength (content : List UInt8) : Nat := content.length - Utf8.validLength content

def run (q : Quoted) : List UInt8 → Except Fault (String × List UInt8)
  | [] => .error ⟨.endInString, 0, 0⟩
  | b :: rest =>
    match q.step b with
    | .more next => next.run rest
    | .refused reason => .error ⟨reason, rest.length, 0⟩
    | .closed content =>
      match Utf8.text? content with
      | some s => .ok (s, rest)
      | none => .error ⟨.invalidUnicode, rest.length, invalidLength content⟩

end Quoted
end SocketRpc.Json
