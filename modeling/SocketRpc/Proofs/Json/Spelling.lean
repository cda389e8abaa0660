import SocketRpc.Json.Writer
import SocketRpc.Proofs.Json.Reading

/-!
# Texts that spell a tree

A text spells a tree if the reader takes it for that tree wherever a value is due.

* `resume` is how the reader goes on once a tree has been read.
* `Spells`, `SpellsItems` and `SpellsMembers` are the texts of a tree and of what is left of an array
  or an object. There is one lemma for each way to put such texts together, with any blanks in between.
-/

namespace SocketRpc.Proofs.Json
open SocketRpc.Json Ascii

variable {room : Nat} {r : Reader} {stack : List Frame} {b : UInt8} {tree item : Json}
variable {text more blanks gap rest : List UInt8} {items : List Json} {key : String}
variable {members : List (String × Json)}

def resume (room : Nat) (tree : Json) : List Frame → List UInt8 → Except Fault (Json × List UInt8)
  | [], rest => .ok (tree, rest)
  | .items items :: stack, rest => Reader.run room ⟨.afterItem (tree :: items), stack⟩ rest
  | .members members key :: stack, rest =>
      Reader.run room ⟨.afterMember ((key, tree) :: members), stack⟩ rest

theorem run_settle (h : r.step room b = Reader.settle tree stack) :
    r.run room (b :: rest) = resume room tree stack rest := by
  rw [Reader.run, h]
  rcases stack with _ | ⟨_ | _, stack⟩ <;> rfl

theorem run_more {next : Reader} (h : r.step room b = .more next) :
    r.run room (b :: rest) = next.run room rest := by
  rw [Reader.run, h]

theorem run_blanks (blank : ∀ b ∈ blanks, isBlank b)
    (stays : ∀ b, isBlank b → r.step room b = .more r) :
    r.run room (blanks ++ rest) = r.run room rest := by
  induction blanks with
  | nil => rfl
  | cons b blanks ih =>
      rw [List.cons_append, run_more (stays b (blank b (by simp)))]
      exact ih fun c hc => blank c (by simp [hc])

def quotedAfter (q : Quoted) : List UInt8 → Option Quoted
  | [] => some q
  | b :: rest => match q.step b with
      | .more next => quotedAfter next rest
      | _ => none

theorem quotedAfter_append {q mid : Quoted} (h : quotedAfter q text = some mid) :
    quotedAfter q (text ++ more) = quotedAfter mid more := by
  induction text generalizing q with
  | nil => cases h; rfl
  | cons b text ih =>
      simp only [quotedAfter, List.cons_append] at h ⊢
      cases step : q.step b with
      | more next => rw [step] at h; exact ih h
      | closed content => rw [step] at h; cases h
      | refused reason => rw [step] at h; cases h

theorem control_unit : ∀ n < 32,
    Quoted.codeUnit? [hexDigit (n % 16), hexDigit (n / 16), byte '0', byte '0'] = some n := by
  decide

theorem control_char : ∀ n < 32, String.utf8EncodeChar (Char.ofNat n) = [n.toUInt8] := by
  decide

theorem endUnit_control (content digits : List UInt8) (place : Place) (small : b.toNat < 32)
    (unit : Quoted.codeUnit? digits = some b.toNat) :
    Quoted.endUnit ⟨content, place⟩ digits = .more ⟨b :: content, .plain⟩ := by
  have low : Quoted.isLow b.toNat = false := by simp [Quoted.isLow]; omega
  have high : Quoted.isHigh b.toNat = false := by simp [Quoted.isHigh]; omega
  simp [Quoted.endUnit, unit, low, high, Quoted.push, control_char b.toNat small]

theorem quotedAfter_writeByte (content : List UInt8) (b : UInt8) :
    quotedAfter ⟨content, .plain⟩ (writeByte b) = some ⟨b :: content, .plain⟩ := by
  unfold writeByte
  split
  · next same => rw [eq_of_beq same]; rfl
  next notQuote =>
    split
    · next same => rw [eq_of_beq same]; rfl
    next notBackslash =>
      iterate 5
        split
        · next same => rw [eq_of_beq same]; rfl
      split
      · next control =>
          have small : b.toNat < 32 := by simpa using UInt8.lt_iff_toNat_lt.1 control
          change quotedAfter ⟨content, .codeUnit [hexDigit (b.toNat / 16), byte '0', byte '0']⟩
            [hexDigit (b.toNat % 16)] = _
          simp only [quotedAfter, Quoted.step, List.length_cons, List.length_nil]
          rw [if_neg (by decide), endUnit_control content _ _ small (control_unit b.toNat small)]
      · next visible => simp [quotedAfter, Quoted.step, notQuote, notBackslash, visible]

theorem quotedAfter_bytes (content bytes : List UInt8) :
    quotedAfter ⟨content, .plain⟩ (bytes.flatMap writeByte) = some ⟨bytes.reverse ++ content, .plain⟩ := by
  induction bytes generalizing content with
  | nil => rfl
  | cons b bytes ih =>
      rw [List.flatMap_cons, quotedAfter_append (quotedAfter_writeByte content b), ih]
      simp

structure Gathers (room : Nat) (wrap : Quoted → Reader) (closed : String → Move) : Prop where
  step : ∀ q b, (wrap q).step room b = Reader.stepQuoted q (fun next => .more (wrap next)) closed b

variable {wrap : Quoted → Reader} {closed : String → Move}

theorem run_quotedAfter {q last : Quoted} (gathers : Gathers room wrap closed)
    (h : quotedAfter q text = some last) (rest : List UInt8) :
    (wrap q).run room (text ++ rest) = (wrap last).run room rest := by
  induction text generalizing q with
  | nil => cases h; rfl
  | cons b text ih =>
      simp only [quotedAfter] at h
      cases step : q.step b with
      | more next =>
          rw [step] at h
          rw [List.cons_append, run_more (by rw [gathers.step, Reader.stepQuoted, step])]
          exact ih h
      | closed content => rw [step] at h; cases h
      | refused reason => rw [step] at h; cases h

theorem run_written (gathers : Gathers room wrap closed) (s : String) : ∃ last,
    (wrap last).step room quote = closed s ∧ ∀ rest,
      (wrap .start).run room ((Utf8.bytes s).flatMap writeByte ++ rest) = (wrap last).run room rest := by
  refine ⟨⟨(Utf8.bytes s).reverse, .plain⟩, ?_, fun rest => run_quotedAfter gathers ?_ rest⟩
  · rw [gathers.step]
    simp [Reader.stepQuoted, Quoted.step, Utf8.text?_bytes]
  · rw [Quoted.start, quotedAfter_bytes, List.append_nil]

theorem run_string (s : String) (stack : List Frame) (rest : List UInt8) :
    Reader.run room ⟨.value, stack⟩ (writeString s ++ rest) = resume room (.string s) stack rest := by
  have gathers : Gathers room (fun q => ⟨.string q, stack⟩) fun s => Reader.settle (.string s) stack :=
    ⟨fun q b => rfl⟩
  obtain ⟨last, ends, reads⟩ := run_written gathers s
  have opened : Reader.step room ⟨.value, stack⟩ quote = .more ⟨.string .start, stack⟩ := rfl
  rw [writeString, List.cons_append, run_more opened, List.append_assoc, reads]
  exact run_settle ends

theorem run_key (key : String) (read : List (String × Json)) (stack : List Frame) (rest : List UInt8) :
    Reader.run room ⟨.key read .start, stack⟩ ((Utf8.bytes key).flatMap writeByte ++ [quote] ++ rest) =
      Reader.run room ⟨.colon read key, stack⟩ rest := by
  have gathers : Gathers room (fun q => ⟨.key read q, stack⟩) fun key => .more ⟨.colon read key, stack⟩ :=
    ⟨fun q b => rfl⟩
  obtain ⟨last, ends, reads⟩ := run_written gathers key
  rw [List.append_assoc, reads]
  exact run_more ends

theorem digit_byte : ∀ d < 10, isDigit (0x30 + d.toUInt8) = true ∧ digit (0x30 + d.toUInt8) = d ∧
    (0 < d → (0x30 + d.toUInt8 == byte '0') = false) := by
  decide

theorem step_numeral {n next : Numeral} (h : n.step b = .more next) :
    Reader.step room ⟨.number n, stack⟩ b = .more ⟨.number next, stack⟩ := by
  simp only [Reader.step, Reader.stepNumber, h]

theorem advance_decimal (negative : Bool) (n : Nat) (positive : 0 < n) (fits : n < 0x10000000000000000) :
    advance room ⟨.number ⟨negative, .sign⟩, stack⟩ (decimal n) =
      some ⟨.number ⟨negative, .whole n⟩, stack⟩ := by
  induction n using decimal.induct with
  | case1 n small =>
      obtain ⟨isDigit, value, notZero⟩ := digit_byte n small
      have step : Numeral.step ⟨negative, .sign⟩ (0x30 + n.toUInt8) = .more ⟨negative, .whole n⟩ := by
        simp only [Numeral.step, notZero positive, isDigit, value]
        rfl
      rw [decimal, if_pos small, advance_cons (step_numeral step)]
      rfl
  | case2 n large ih =>
      obtain ⟨isDigit, value, -⟩ := digit_byte (n % 10) (Nat.mod_lt n (by decide))
      have push : Numeral.push? (n / 10) (0x30 + (n % 10).toUInt8) = some n := by
        simp only [Numeral.push?, value]
        rw [Nat.div_add_mod' n 10, if_pos fits]
      have step : Numeral.step ⟨negative, .whole (n / 10)⟩ (0x30 + (n % 10).toUInt8) =
          .more ⟨negative, .whole n⟩ := by
        simp only [Numeral.step, isDigit, push]
        rfl
      rw [decimal, if_neg large]
      refine advance_append.2 ⟨_, ih (by omega) (by omega), ?_⟩
      rw [advance_cons (step_numeral step)]
      rfl

theorem run_numeral {n : Numeral} {number : Number} (value : n.value = .ok number)
    (follows : ∀ b ∈ rest.head?, isNumeric b = false) :
    Reader.run room ⟨.number n, stack⟩ rest = resume room (.number number) stack rest := by
  cases rest with
  | nil =>
      rw [Reader.run]
      rcases stack with _ | ⟨_ | _, stack⟩ <;> simp [Reader.finish, value, Reader.endAround, resume, Reader.run]
  | cons b rest =>
      have ended := numeral_ends value (follows b rfl)
      rcases stack with _ | ⟨_ | _, stack⟩
      all_goals simp [Reader.run, Reader.step, Reader.stepNumber, ended, value, resume]

theorem begin_digit (h : isDigit b) :
    Reader.run room ⟨.value, stack⟩ (b :: rest) =
      Reader.run room ⟨.number ⟨false, .sign⟩, stack⟩ (b :: rest) := by
  have ne {c : UInt8} (hc : isDigit c = false) : (b == c) = false := by
    rw [beq_eq_false_iff_ne]
    rintro rfl
    cases h.symm.trans hc
  have solid : isBlank b = false := numeric_solid (by simp [isNumeric, h])
  have begins : Reader.step room ⟨.value, stack⟩ b =
      Reader.step room ⟨.number ⟨false, .sign⟩, stack⟩ b := by
    simp only [Reader.step, Reader.begin, Reader.stepNumber, Numeral.step, solid, h,
      ne (c := quote) (by decide), ne (c := openBracket) (by decide), ne (c := openBrace) (by decide),
      ne (c := minus) (by decide)]
    cases b == byte '0' <;> rfl
  rw [Reader.run, Reader.run, begins]

theorem decimal_head (n : Nat) : ∃ b digits, decimal n = b :: digits ∧ isDigit b := by
  induction n using decimal.induct with
  | case1 n small => exact ⟨_, [], by rw [decimal, if_pos small], (digit_byte n small).1⟩
  | case2 n large ih =>
      obtain ⟨b, digits, begins, digit⟩ := ih
      exact ⟨b, _, by rw [decimal, if_neg large, begins, List.cons_append], digit⟩

theorem ofWhole_integer {negative : Bool} {n : Nat} {value : Int}
    (fits : -0x8000000000000000 ≤ value ∧ value < 0x10000000000000000)
    (same : value = if negative then -(n : Int) else n) (sign : negative → value < 0) :
    Numeral.ofWhole negative n = .ok (.integer value fits) := by
  subst same
  exact dif_pos ⟨fits, sign⟩

theorem run_integer (value : Int) (fits : -0x8000000000000000 ≤ value ∧ value < 0x10000000000000000)
    (follows : ∀ b ∈ rest.head?, isNumeric b = false) :
    Reader.run room ⟨.value, stack⟩ (writeInteger value ++ rest) =
      resume room (.number (.integer value fits)) stack rest := by
  unfold writeInteger
  split
  · next negative =>
      have signed : Reader.step room ⟨.value, stack⟩ minus = .more ⟨.number ⟨true, .sign⟩, stack⟩ := rfl
      rw [List.cons_append, run_more signed,
        run_of_advance (advance_decimal true value.natAbs (by omega) (by omega))]
      have same : value = -(value.natAbs : Int) := by omega
      have whole : Numeral.ofWhole true value.natAbs = .ok (.integer value fits) :=
        ofWhole_integer fits same fun _ => negative
      exact run_numeral whole follows
  · next natural =>
      by_cases zero : value = 0
      · subst zero
        have begins : Reader.step room ⟨.value, stack⟩ 0x30 = .more ⟨.number ⟨false, .zero⟩, stack⟩ := rfl
        rw [Int.natAbs_zero, decimal, if_pos (by decide)]
        have whole : Numeral.ofWhole false 0 = .ok (.integer 0 fits) :=
          ofWhole_integer fits rfl fun signed => absurd signed Bool.false_ne_true
        exact (run_more begins).trans (run_numeral whole follows)
      · -- Digits are only followed from the state after a sign, so the first one is taken there, too.
        obtain ⟨b, text, head, digit⟩ := decimal_head value.natAbs
        rw [head, List.cons_append, begin_digit digit, ← List.cons_append, ← head,
          run_of_advance (advance_decimal false value.natAbs (by omega) (by omega))]
        have same : value = (value.natAbs : Int) := by omega
        have whole : Numeral.ofWhole false value.natAbs = .ok (.integer value fits) :=
          ofWhole_integer fits same fun signed => absurd signed Bool.false_ne_true
        exact run_numeral whole follows

/-- The text of a tree: wherever a value is due, reading it leads past the tree. A number needs a byte
after it that is none of a number, or the end. -/
structure Spells (text : List UInt8) (tree : Json) : Prop where
  starts : ∃ b more, text = b :: more ∧ isBlank b = false ∧ b ≠ closeBracket
  reads : ∀ room stack rest, tree.depth + stack.length ≤ room →
    (tree.isNumber → ∀ b ∈ rest.head?, isNumeric b = false) →
      Reader.run room ⟨.value, stack⟩ (text ++ rest) = resume room tree stack rest

theorem run_literal {due : List UInt8} (going : due ≠ []) :
    Reader.run room ⟨.literal due tree, stack⟩ (due ++ rest) = resume room tree stack rest := by
  induction due with
  | nil => exact absurd rfl going
  | cons b due ih =>
      cases due with
      | nil => exact run_settle (by simp [Reader.step])
      | cons c due =>
          refine (run_more ?_).trans (ih (by simp))
          simp [Reader.step]

theorem spells_word (literal : Word text tree) : Spells text tree where
  starts := by cases literal <;> exact ⟨_, _, rfl, by decide, by decide⟩
  reads room stack rest _ _ := by
    obtain ⟨first, due, rfl, going, letter, begins⟩ := begin_word room stack literal
    refine (run_more ?_).trans (run_literal going)
    simpa [Reader.step, letter_solid letter] using begins

theorem spells_string (s : String) : Spells (writeString s) (.string s) where
  starts := ⟨quote, _, rfl, by decide, by decide⟩
  reads room stack rest _ _ := run_string s stack rest

theorem numeric_starts {digits : List UInt8} (h : isNumeric b) :
    ∃ c more, b :: digits = c :: more ∧ isBlank c = false ∧ c ≠ closeBracket :=
  ⟨b, digits, rfl, numeric_solid h, numeric_ne h (by decide)⟩

theorem spells_integer (value : Int) (fits : -0x8000000000000000 ≤ value ∧ value < 0x10000000000000000) :
    Spells (writeInteger value) (.number (.integer value fits)) where
  starts := by
    unfold writeInteger
    split
    · exact numeric_starts (by decide)
    · obtain ⟨b, digits, head, digit⟩ := decimal_head value.natAbs
      rw [head]
      exact numeric_starts (by simp [isNumeric, digit])
  reads room stack rest _ follows := run_integer value fits (follows rfl)

theorem blank_not_numeric (h : isBlank b) : isNumeric b = false := by
  cases numeric : isNumeric b with
  | false => rfl
  | true => cases h.symm.trans (numeric_solid numeric)

structure SpellsItems (text : List UInt8) (items : List Json) : Prop where
  starts : ∃ b more, text = b :: more ∧ isNumeric b = false
  reads : ∀ room stack read rest, Json.depthItems items + stack.length < room →
    Reader.run room ⟨.afterItem read, stack⟩ (text ++ rest) =
      resume room (.array (read.reverse ++ items)) stack rest

theorem ends_starts {last : UInt8} (blank : ∀ b ∈ blanks, isBlank b) (h : isNumeric last = false) :
    ∃ b more, blanks ++ [last] = b :: more ∧ isNumeric b = false := by
  cases blanks with
  | nil => exact ⟨last, [], rfl, h⟩
  | cons b blanks => exact ⟨b, _, rfl, blank_not_numeric (blank b (by simp))⟩

theorem run_item (due : Mode) (read : List Json) (item : Spells text tree) (left : SpellsItems more items)
    (begins : ∀ b, isBlank b = false → b ≠ closeBracket →
      Reader.step room ⟨due, stack⟩ b = Reader.begin room (.items read :: stack) b)
    (depth : max tree.depth (Json.depthItems items) + stack.length < room) :
    Reader.run room ⟨due, stack⟩ (text ++ (more ++ rest)) =
      resume room (.array (read.reverse ++ tree :: items)) stack rest := by
  obtain ⟨b, text', rfl, solid, open_⟩ := item.starts
  obtain ⟨c, more', rfl, follows⟩ := left.starts
  -- The byte that begins the item does the same as where a value is due.
  have first : Reader.run room ⟨due, stack⟩ (b :: text' ++ (c :: more' ++ rest)) =
      Reader.run room ⟨.value, .items read :: stack⟩ (b :: text' ++ (c :: more' ++ rest)) := by
    rw [List.cons_append, Reader.run, Reader.run, begins b solid open_]
    simp [Reader.step, solid]
  rw [first, item.reads _ _ _ (by simp; omega) (by simpa using fun _ => follows)]
  simpa [resume] using left.reads room stack (tree :: read) rest (by omega)

theorem spellsItems_nil (blanks : List UInt8) (blank : ∀ b ∈ blanks, isBlank b) :
    SpellsItems (blanks ++ [closeBracket]) [] where
  starts := ends_starts blank (by decide)
  reads room stack read rest _ := by
    have ends : Reader.step room ⟨.afterItem read, stack⟩ closeBracket =
        Reader.settle (.array read.reverse) stack := rfl
    rw [List.append_assoc, run_blanks blank fun b h => by simp [Reader.step, Reader.stepAfterItem, h]]
    simpa using run_settle ends

theorem spellsItems_cons (blanks : List UInt8) (blank : ∀ b ∈ blanks, isBlank b) (item : Spells text tree)
    (left : SpellsItems more items) : SpellsItems (comma :: (blanks ++ (text ++ more))) (tree :: items) where
  starts := ⟨comma, _, rfl, by decide⟩
  reads room stack read rest depth := by
    have next : Reader.step room ⟨.afterItem read, stack⟩ comma = .more ⟨.nextItem read, stack⟩ := rfl
    rw [List.cons_append, run_more next, List.append_assoc,
      run_blanks blank fun b h => by simp [Reader.step, h], List.append_assoc]
    exact run_item (.nextItem read) read item left
      (fun b solid open_ => by simp [Reader.step, solid, open_]) depth

theorem open_array (h : stack.length < room) :
    Reader.step room ⟨.value, stack⟩ openBracket = .more ⟨.firstItem, stack⟩ :=
  if_pos h

theorem spells_empty_array : Spells [openBracket, closeBracket] (.array []) where
  starts := ⟨openBracket, _, rfl, by decide, by decide⟩
  reads room stack rest depth _ := by
    have ends : Reader.step room ⟨.firstItem, stack⟩ closeBracket = Reader.settle (.array []) stack := rfl
    simp only [Json.depth, Json.depthItems] at depth
    exact (run_more (open_array (by omega))).trans (run_settle ends)

theorem spells_array (blanks : List UInt8) (blank : ∀ b ∈ blanks, isBlank b) (item : Spells text tree)
    (left : SpellsItems more items) :
    Spells (openBracket :: (blanks ++ (text ++ more))) (.array (tree :: items)) where
  starts := ⟨openBracket, _, rfl, by decide, by decide⟩
  reads room stack rest depth _ := by
    simp only [Json.depth, Json.depthItems] at depth
    rw [List.cons_append, run_more (open_array (by omega)), List.append_assoc,
      run_blanks blank fun b h => by simp [Reader.step, h], List.append_assoc]
    exact run_item .firstItem [] item left
      (fun b solid open_ => by simp [Reader.step, solid, open_]) (by omega)

structure SpellsMembers (text : List UInt8) (members : List (String × Json)) : Prop where
  starts : ∃ b more, text = b :: more ∧ isNumeric b = false
  reads : ∀ room stack read rest, Json.depthMembers members + stack.length < room →
    Reader.run room ⟨.afterMember read, stack⟩ (text ++ rest) =
      resume room (.object (read.reverse ++ members)) stack rest

theorem run_member (due : Mode) (read : List (String × Json)) (key : String)
    (blank : ∀ b ∈ gap, isBlank b) (value : Spells text tree) (left : SpellsMembers more members)
    (opens : Reader.step room ⟨due, stack⟩ quote = .more ⟨.key read .start, stack⟩)
    (depth : max tree.depth (Json.depthMembers members) + stack.length < room) :
    Reader.run room ⟨due, stack⟩ (writeString key ++ colon :: (gap ++ (text ++ (more ++ rest)))) =
      resume room (.object (read.reverse ++ (key, tree) :: members)) stack rest := by
  obtain ⟨c, more', rfl, follows⟩ := left.starts
  have valued : Reader.step room ⟨.colon read key, stack⟩ colon =
      .more ⟨.value, .members read key :: stack⟩ := rfl
  rw [writeString, List.cons_append, run_more opens, run_key, run_more valued,
    run_blanks blank fun b h => by simp [Reader.step, h],
    value.reads _ _ _ (by simp; omega) (by simpa using fun _ => follows)]
  simpa [resume] using left.reads room stack ((key, tree) :: read) rest (by omega)

theorem spellsMembers_nil (blanks : List UInt8) (blank : ∀ b ∈ blanks, isBlank b) :
    SpellsMembers (blanks ++ [closeBrace]) [] where
  starts := ends_starts blank (by decide)
  reads room stack read rest _ := by
    have ends : Reader.step room ⟨.afterMember read, stack⟩ closeBrace =
        Reader.settle (.object read.reverse) stack := rfl
    rw [List.append_assoc, run_blanks blank fun b h => by simp [Reader.step, Reader.stepAfterMember, h]]
    simpa using run_settle ends

theorem spellsMembers_cons (key : String) (blanks gap : List UInt8) (blank : ∀ b ∈ blanks, isBlank b)
    (blank' : ∀ b ∈ gap, isBlank b) (value : Spells text tree) (left : SpellsMembers more members) :
    SpellsMembers (comma :: (blanks ++ (writeString key ++ colon :: (gap ++ (text ++ more)))))
      ((key, tree) :: members) where
  starts := ⟨comma, _, rfl, by decide⟩
  reads room stack read rest depth := by
    have next : Reader.step room ⟨.afterMember read, stack⟩ comma = .more ⟨.nextKey read, stack⟩ := rfl
    rw [List.cons_append, run_more next, List.append_assoc,
      run_blanks blank fun b h => by simp [Reader.step, h]]
    simpa using run_member (.nextKey read) read key blank' value left rfl depth

theorem open_object (h : stack.length < room) :
    Reader.step room ⟨.value, stack⟩ openBrace = .more ⟨.firstKey, stack⟩ :=
  if_pos h

theorem spells_empty_object : Spells [openBrace, closeBrace] (.object []) where
  starts := ⟨openBrace, _, rfl, by decide, by decide⟩
  reads room stack rest depth _ := by
    have ends : Reader.step room ⟨.firstKey, stack⟩ closeBrace = Reader.settle (.object []) stack := rfl
    simp only [Json.depth, Json.depthMembers] at depth
    exact (run_more (open_object (by omega))).trans (run_settle ends)

theorem spells_object (key : String) (blanks gap : List UInt8) (blank : ∀ b ∈ blanks, isBlank b)
    (blank' : ∀ b ∈ gap, isBlank b) (value : Spells text tree) (left : SpellsMembers more members) :
    Spells (openBrace :: (blanks ++ (writeString key ++ colon :: (gap ++ (text ++ more)))))
      (.object ((key, tree) :: members)) where
  starts := ⟨openBrace, _, rfl, by decide, by decide⟩
  reads room stack rest depth _ := by
    simp only [Json.depth, Json.depthMembers] at depth
    rw [List.cons_append, run_more (open_object (by omega)), List.append_assoc,
      run_blanks blank fun b h => by simp [Reader.step, h]]
    simpa using run_member .firstKey [] key blank' value left rfl (by omega)

end SocketRpc.Proofs.Json
