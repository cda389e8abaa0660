import SocketRpc.Proofs.Json.Reading

/-!
# The grammar of JSON

The texts that are JSON, without regard to how they are read. Nothing bounds how deep they nest or how
large their numbers are, and an escaped half of a surrogate pair may stand alone. So the reader refuses
some of them.

* `Characters` is what may stand between quotes, and `NumberText` what a number may be.
* `Derives` are the rules of the grammar, one for each way to make up a part of a text.
-/

namespace SocketRpc.Proofs.Json.Grammar
open SocketRpc.Json Ascii

variable {b : UInt8} {text rest : List UInt8}

inductive Characters : List UInt8 → Prop
  | nothing : Characters []
  | plain {b : UInt8} {rest : List UInt8} (visible : 0x20 ≤ b) (ordinary : b ≠ quote ∧ b ≠ backslash)
      (more : Characters rest) : Characters (b :: rest)
  | escape {letter : UInt8} {rest : List UInt8} (known : letter ∈ "\"\\/bfnrt".toList.map byte)
      (more : Characters rest) : Characters (backslash :: letter :: rest)
  | codeUnit {digits rest : List UInt8} (four : digits.length = 4) (hex : ∀ d ∈ digits, hexDigit? d ≠ none)
      (more : Characters rest) : Characters (backslash :: byte 'u' :: (digits ++ rest))

def quoted (content : List UInt8) : List UInt8 := quote :: (content ++ [quote])

def Digits (text : List UInt8) : Prop := text ≠ [] ∧ ∀ b ∈ text, isDigit b

inductive Whole : List UInt8 → Prop
  | zero : Whole [byte '0']
  | digits {first : UInt8} {rest : List UInt8} (nonzero : first ≠ byte '0')
      (digits : Digits (first :: rest)) : Whole (first :: rest)

inductive Fraction : List UInt8 → Prop
  | absent : Fraction []
  | digits {digits : List UInt8} (some : Digits digits) : Fraction (point :: digits)

inductive Exponent : List UInt8 → Prop
  | absent : Exponent []
  | digits {mark : UInt8} {sign digits : List UInt8} (marks : mark = byte 'e' ∨ mark = byte 'E')
      (signs : sign ∈ [[], [plus], [minus]]) (some : Digits digits) : Exponent (mark :: (sign ++ digits))

inductive NumberText : List UInt8 → Prop
  | parts {sign whole fraction exponent : List UInt8} (signs : sign ∈ [[], [minus]]) (first : Whole whole)
      (second : Fraction fraction) (third : Exponent exponent) :
      NumberText (sign ++ (whole ++ (fraction ++ exponent)))

theorem digits_numeric (h : Digits text) : ∀ b ∈ text, isNumeric b := by
  intro b member
  simp [isNumeric, h.2 b member]

theorem whole_numeric (h : Whole text) : ∀ b ∈ text, isNumeric b := by
  cases h with
  | zero => exact List.forall_mem_singleton.2 rfl
  | digits nonzero digits => exact digits_numeric digits

theorem fraction_numeric (h : Fraction text) : ∀ b ∈ text, isNumeric b := by
  cases h with
  | absent => nofun
  | digits digits => exact List.forall_mem_cons.2 ⟨rfl, digits_numeric digits⟩

theorem exponent_numeric (h : Exponent text) : ∀ b ∈ text, isNumeric b := by
  cases h with
  | absent => nofun
  | digits marks signs digits =>
      refine List.forall_mem_cons.2 ⟨?_, List.forall_mem_append.2 ⟨?_, digits_numeric digits⟩⟩
      · rcases marks with rfl | rfl <;> rfl
      · simp only [List.mem_cons, List.not_mem_nil, or_false] at signs
        rcases signs with rfl | rfl | rfl <;> simp [isNumeric]

theorem number_numeric (h : NumberText text) : ∀ b ∈ text, isNumeric b := by
  cases h with
  | parts signs first second third =>
      refine List.forall_mem_append.2 ⟨?_, List.forall_mem_append.2 ⟨whole_numeric first,
        List.forall_mem_append.2 ⟨fraction_numeric second, exponent_numeric third⟩⟩⟩
      simp only [List.mem_cons, List.not_mem_nil, or_false] at signs
      rcases signs with rfl | rfl <;> simp [isNumeric]

/-- The parts of a text. An element is a value with the blanks around it; elements and members are
separated by commas. -/
inductive Part
  | value
  | element
  | elements
  | member
  | members

def Blanks (text : List UInt8) : Prop := ∀ b ∈ text, isBlank b

inductive Derives : Part → List UInt8 → Prop
  | word {text : List UInt8} {tree : Json} (word : Word text tree) : Derives .value text
  | number {text : List UInt8} (number : NumberText text) : Derives .value text
  | string {content : List UInt8} (characters : Characters content) : Derives .value (quoted content)
  | emptyArray {blanks : List UInt8} (blank : Blanks blanks) :
      Derives .value (openBracket :: (blanks ++ [closeBracket]))
  | array {text : List UInt8} (elements : Derives .elements text) :
      Derives .value (openBracket :: (text ++ [closeBracket]))
  | emptyObject {blanks : List UInt8} (blank : Blanks blanks) :
      Derives .value (openBrace :: (blanks ++ [closeBrace]))
  | object {text : List UInt8} (members : Derives .members text) :
      Derives .value (openBrace :: (text ++ [closeBrace]))
  | element {before text after : List UInt8} (blank : Blanks before) (value : Derives .value text)
      (blank' : Blanks after) : Derives .element (before ++ (text ++ after))
  | lastElement {text : List UInt8} (element : Derives .element text) : Derives .elements text
  | moreElements {text rest : List UInt8} (element : Derives .element text)
      (elements : Derives .elements rest) : Derives .elements (text ++ comma :: rest)
  | member {before key after text : List UInt8} (blank : Blanks before) (characters : Characters key)
      (blank' : Blanks after) (element : Derives .element text) :
      Derives .member (before ++ (quoted key ++ (after ++ colon :: text)))
  | lastMember {text : List UInt8} (member : Derives .member text) : Derives .members text
  | moreMembers {text rest : List UInt8} (member : Derives .member text)
      (members : Derives .members rest) : Derives .members (text ++ comma :: rest)

end SocketRpc.Proofs.Json.Grammar
