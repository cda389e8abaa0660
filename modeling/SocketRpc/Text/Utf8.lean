namespace SocketRpc.Utf8

def bytes (s : String) : List UInt8 := s.toByteArray.data.toList

def text? (bytes : List UInt8) : Option String := String.fromUTF8? ⟨bytes.toArray⟩

theorem text?_bytes (s : String) : text? (bytes s) = some s := by
  simp [text?, bytes, String.fromUTF8?, String.fromUTF8, s.isValidUTF8]

def continues (b : UInt8) : Bool := 0x80 ≤ b && b ≤ 0xbf

def begins (first second : UInt8) : Bool :=
  if first == 0xe0 then 0xa0 ≤ second && second ≤ 0xbf
  else if first == 0xed then 0x80 ≤ second && second ≤ 0x9f
  else if first == 0xf0 then 0x90 ≤ second && second ≤ 0xbf
  else if first == 0xf4 then 0x80 ≤ second && second ≤ 0x8f
  else 0xc2 ≤ first && first ≤ 0xf4 && continues second

def validLength : List UInt8 → Nat
  | a :: rest =>
    if a < 0x80 then validLength rest + 1
    else match rest with
      | b :: rest =>
        if !begins a b then 0
        else if a < 0xe0 then validLength rest + 2
        else match rest with
          | c :: rest =>
            if !continues c then 0
            else if a < 0xf0 then validLength rest + 3
            else match rest with
              | d :: rest => if continues d then validLength rest + 4 else 0
              | [] => 0
          | [] => 0
      | [] => 0
  | [] => 0

end SocketRpc.Utf8
