import SocketRpc.Decoder.Basic
/-!
# Records

* A `Record` says what the fields of a type are, in their order. It is read from an object that
  names them, or from an array that lists them.
* No field may be given twice, and no other field may be given.
* A field is read into a draft; the record is built from the draft once all is read.
* A mismatch that has no place yet gets one here: after the record's closing bracket if that is the
  next token, else before that token.
-/

namespace SocketRpc
open Ascii

/-- A field: what a value for it does to the draft, and whether an array may end before it. -/
structure Field (σ : Type) where
  name : String
  decoder : Decoder (σ → σ)
  mayLack : Bool

structure Record (σ α : Type) where
  name : String
  fields : List (Field σ)
  empty : σ
  build : σ → Except DataError α

def Field.required {α : Type} (name : String) (given : Option α) : Except DataError α :=
  match given with
  | some x => .ok x
  | none => .error (.missingField name)

namespace Record

variable {σ α : Type}

def take? (name : String) : List (Field σ) → Option (Field σ × List (Field σ))
  | [] => none
  | field :: rest =>
    if field.name = name then some (field, rest)
    else (take? name rest).map fun (found, rest) => (found, field :: rest)

theorem take?_length {name : String} {fields rest : List (Field σ)} {field : Field σ}
    (h : take? name fields = some (field, rest)) : rest.length < fields.length := by
  induction fields generalizing rest with
  | nil => cases h
  | cons first fields ih =>
    simp only [take?] at h
    split at h
    · cases h
      simp
    · obtain ⟨⟨found, remaining⟩, taken, equal⟩ := Option.map_eq_some_iff.1 h
      cases equal
      simpa using ih taken

def names (r : Record σ α) : List String := r.fields.map Field.name

def fieldFor (r : Record σ α) (remaining : List (Field σ)) (key : String) :
    Except DataError { taken : Field σ × List (Field σ) // taken.2.length < remaining.length } :=
  match h : take? key remaining with
  | some taken => .ok ⟨taken, take?_length h⟩
  | none => .error (if key ∈ r.names then .duplicateField key else .unknownField key r.names)

def expectation (r : Record σ α) : String := "struct " ++ r.name

def tooShort (r : Record σ α) (i : Nat) : DataError :=
  let count := r.fields.length
  let noun := if count = 1 then " element" else " elements"
  .invalidLength i (r.expectation ++ " with " ++ toString count ++ noun)

def lack (r : Record σ α) (i : Nat) (remaining : List (Field σ)) : Except DataError Unit :=
  match remaining.findIdx? (!·.mayLack) with
  | none => .ok ()
  | some k => .error (r.tooShort (i + k))

def ofMembers (r : Record σ α) :
    List (Field σ) → σ → List (String × Json) → Except DataError σ
  | _, draft, [] => .ok draft
  | remaining, draft, (key, tree) :: rest =>
    match r.fieldFor remaining key with
    | .error reason => .error reason
    | .ok taken =>
      match taken.val.1.decoder.ofTree tree with
      | .error reason => .error reason
      | .ok update => r.ofMembers taken.val.2 (update draft) rest

def ofItems (r : Record σ α) (length i : Nat) :
    List (Field σ) → σ → List Json → Except DataError σ
  | [], draft, [] => .ok draft
  | [], _, _ :: _ => .error (.invalidLength length "fewer elements in array")
  | field :: remaining, draft, [] => (r.lack i (field :: remaining)).map fun _ => draft
  | field :: remaining, draft, tree :: rest =>
    match field.decoder.ofTree tree with
    | .error reason => .error reason
    | .ok update => r.ofItems length (i + 1) remaining (update draft) rest

def ofTree (r : Record σ α) : Json → Except DataError α
  | .object members => r.ofMembers r.fields r.empty members >>= r.build
  | .array items => r.ofItems items.length 0 r.fields r.empty items >>= r.build
  | tree => .error (.wrongType tree.found r.expectation)

def placeInObject : DecodeFault → DecodeFault
  | .placed cause unread back => .placed cause unread back
  | .loose reason rest =>
    match skipBlanks rest with
    | [] => Decoder.mismatch reason []
    | b :: rest =>
      if b == closeBrace then Decoder.mismatch reason rest else Decoder.mismatch reason (b :: rest)

def placeInArray : DecodeFault → DecodeFault
  | .placed cause unread back => .placed cause unread back
  | .loose reason rest =>
    match skipBlanks rest with
    | [] => Decoder.mismatch reason []
    | b :: rest =>
      if b == closeBracket then Decoder.mismatch reason rest
      else if b == comma then Decoder.mismatch reason (skipBlanks rest)
      else Decoder.mismatch reason (b :: rest)

def nextKey (first : Bool) (input : List UInt8) :
    Except DecodeFault (Option String × List UInt8) :=
  let keyed (rest : List UInt8) : Except DecodeFault (Option String × List UInt8) :=
    (Decoder.readQuoted rest).map fun (key, rest) => (some key, rest)
  match skipBlanks input with
  | [] => .error (Decoder.malformed .endInObject [])
  | b :: rest =>
    if b == closeBrace then .ok (none, rest)
    else if first then
      if b == quote then keyed rest else .error (Decoder.malformed .keyNotString rest)
    else if b == comma then
      match skipBlanks rest with
      | [] => .error (Decoder.malformed .endInValue [])
      | b :: rest =>
        if b == quote then keyed rest
        else if b == closeBrace then .error (Decoder.malformed .trailingComma rest)
        else .error (Decoder.malformed .keyNotString rest)
    else .error (Decoder.malformed .expectedObjectEnd rest)

def membersOfText (r : Record σ α) (room : Nat) (remaining : List (Field σ)) (first : Bool)
    (draft : σ) (input : List UInt8) : Except DecodeFault (σ × List UInt8) :=
  match nextKey first input with
  | .error fault => .error fault
  | .ok (none, rest) => .ok (draft, rest)
  | .ok (some key, rest) =>
    match r.fieldFor remaining key with
    | .error reason => .error (.loose reason rest)
    | .ok taken =>
      match Decoder.readColon rest with
      | .error fault => .error fault
      | .ok rest =>
        match taken.val.1.decoder.ofText room rest with
        | .error fault => .error fault
        | .ok (update, rest) =>
          have := taken.property
          r.membersOfText room taken.val.2 false (update draft) rest
termination_by remaining.length

def closeItems (input : List UInt8) : Except DecodeFault (List UInt8) :=
  match skipBlanks input with
  | [] => .error (Decoder.malformed .endInList [])
  | b :: rest =>
    if b == closeBracket then .ok rest
    else if b == comma then
      match skipBlanks rest with
      | [] => .error (Decoder.malformed .trailingCharacters [])
      | b :: rest =>
        if b == closeBracket then .error (Decoder.malformed .trailingComma rest)
        else .error (Decoder.malformed .trailingCharacters rest)
    else .error (Decoder.malformed .trailingCharacters rest)

def nextItem (first : Bool) (input : List UInt8) : Except DecodeFault (Bool × List UInt8) :=
  match skipBlanks input with
  | [] => .error (Decoder.malformed .endInList [])
  | b :: rest =>
    if b == closeBracket then .ok (false, b :: rest)
    else if first then .ok (true, b :: rest)
    else if b == comma then
      match skipBlanks rest with
      | [] => .error (Decoder.malformed .endInValue [])
      | b :: rest =>
        if b == closeBracket then .error (Decoder.malformed .trailingComma rest)
        else .ok (true, b :: rest)
    else .error (Decoder.malformed .expectedListEnd rest)

def itemsOfText (r : Record σ α) (room i : Nat) :
    List (Field σ) → σ → List UInt8 → Except DecodeFault (σ × List UInt8)
  | [], draft, input => (closeItems input).map fun rest => (draft, rest)
  | field :: remaining, draft, input =>
    match nextItem (i == 0) input with
    | .error fault => .error fault
    | .ok (false, rest) =>
      match r.lack i (field :: remaining) with
      | .error reason => .error (.loose reason rest)
      | .ok _ => (closeItems rest).map fun rest => (draft, rest)
    | .ok (true, rest) =>
      match field.decoder.ofText room rest with
      | .error fault => .error fault
      | .ok (update, rest) => r.itemsOfText room (i + 1) remaining (update draft) rest

def finish (r : Record σ α) (read : Except DecodeFault (σ × List UInt8)) :
    Except DecodeFault (α × List UInt8) :=
  match read with
  | .error fault => .error fault
  | .ok (draft, rest) =>
    match r.build draft with
    | .ok x => .ok (x, rest)
    | .error reason => .error (Decoder.mismatch reason rest)

def ofText (r : Record σ α) (room : Nat) (input : List UInt8) :
    Except DecodeFault (α × List UInt8) :=
  match skipBlanks input with
  | [] => .error (Decoder.malformed .endInValue [])
  | b :: rest =>
    if b == openBrace || b == openBracket then
      match room with
      | 0 => .error (Decoder.malformed .tooDeep rest)
      | room + 1 =>
        if b == openBrace then
          r.finish ((r.membersOfText room r.fields true r.empty rest).mapError placeInObject)
        else r.finish ((r.itemsOfText room 0 r.fields r.empty rest).mapError placeInArray)
    else .error (Decoder.wrongStart room r.expectation (b :: rest))

def decoder (r : Record σ α) : Decoder α := ⟨r.ofTree, r.ofText⟩

end Record
end SocketRpc
