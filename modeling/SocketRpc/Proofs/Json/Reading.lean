import SocketRpc.Json.Document

/-!
# The course of reading a value

The reader takes one byte at a time, so what it does with an input is fixed by the state in which
the bytes before it leave it.

* `advance` follows the reader over bytes that leave its value open, and `advance_or_stop` finds the
  byte at which it stops, if there is one.
* `Trace` relates such bytes to the state they lead to: blanks, a part of a literal, a part of a
  number, or a value that was opened by a bracket, a brace or a quote (`trace_of_advance`).
* `sound_step` says what a byte can do within such an opened value: it is never an end of the input,
  and a value that ends with it is no number.
-/

namespace SocketRpc.Proofs.Json
open SocketRpc.Json Ascii

variable {room : Nat} {r mid next last : Reader} {b : UInt8} {text rest : List UInt8}

/-! ## Following the reader -/

def advance (room : Nat) (r : Reader) : List UInt8 → Option Reader
  | [] => some r
  | b :: rest => match r.step room b with
      | .more next => advance room next rest
      | _ => none

theorem advance_cons (h : r.step room b = .more next) :
    advance room r (b :: rest) = advance room next rest := by
  simp only [advance, h]

theorem advance_cons_eq_some : advance room r (b :: rest) = some last ↔
    ∃ next, r.step room b = .more next ∧ advance room next rest = some last := by
  rw [advance]
  cases r.step room b <;> simp

theorem advance_append : advance room r (text ++ rest) = some last ↔
    ∃ mid, advance room r text = some mid ∧ advance room mid rest = some last := by
  induction text generalizing r with
  | nil => simp [advance]
  | cons b text ih =>
      simp only [List.cons_append, advance_cons_eq_some, ih]
      exact ⟨fun ⟨next, hn, mid, hm, hl⟩ => ⟨mid, ⟨next, hn, hm⟩, hl⟩,
        fun ⟨mid, ⟨next, hn, hm⟩, hl⟩ => ⟨next, hn, mid, hm, hl⟩⟩

theorem run_of_advance (h : advance room r text = some last) (rest : List UInt8) :
    r.run room (text ++ rest) = last.run room rest := by
  induction text generalizing r with
  | nil => cases h; rfl
  | cons b text ih =>
      obtain ⟨next, step, h⟩ := advance_cons_eq_some.1 h
      rw [List.cons_append, Reader.run, step]
      exact ih h

def Stops (room : Nat) (r : Reader) (b : UInt8) : Prop := ∀ next, r.step room b ≠ .more next

theorem advance_or_stop (room : Nat) (r : Reader) (input : List UInt8) :
    (∃ last, advance room r input = some last) ∨
    ∃ text b rest last, input = text ++ b :: rest ∧ advance room r text = some last ∧
      Stops room last b := by
  induction input generalizing r with
  | nil => exact .inl ⟨r, rfl⟩
  | cons b input ih =>
      by_cases goes : ∃ next, r.step room b = .more next
      · obtain ⟨next, step⟩ := goes
        rcases ih next with ⟨last, h⟩ | ⟨text, c, rest, last, rfl, h, stop⟩
        · exact .inl ⟨last, by rw [advance_cons step, h]⟩
        · exact .inr ⟨b :: text, c, rest, last, rfl, by rw [advance_cons step, h], stop⟩
      · exact .inr ⟨[], b, input, r, rfl, rfl, fun next step => goes ⟨next, step⟩⟩

theorem advance_stops (h : advance room r text = some last) (stop : Stops room last b) :
    advance room r (text ++ b :: rest) = none := by
  cases goes : advance room r (text ++ b :: rest) with
  | none => rfl
  | some final =>
      obtain ⟨mid, hm, hf⟩ := advance_append.1 goes
      obtain rfl : last = mid := Option.some.inj (h.symm.trans hm)
      obtain ⟨next, step, -⟩ := advance_cons_eq_some.1 hf
      exact absurd step (stop next)

/-! ## The parts of a value -/

theorem codeUnit_of_mem {digits : List UInt8} {d : UInt8} (member : d ∈ digits)
    (bad : hexDigit? d = none) : Quoted.codeUnit? digits = none := by
  induction digits with
  | nil => cases member
  | cons c digits ih =>
      rcases List.mem_cons.1 member with rfl | member
      · simp [Quoted.codeUnit?, bad]
      · simp [Quoted.codeUnit?, ih member]

theorem quoted_refused {q : Quoted} {reason : SyntaxError} (h : q.step b = .refused reason) :
    reason.isEnd = false := by
  unfold Quoted.step Quoted.endUnit Quoted.endPair at h
  repeat' split at h
  all_goals cases h
  all_goals rfl

theorem quoted_closed {q : Quoted} {content : List UInt8} (h : q.step b = .closed content) :
    b = quote ∧ q.place = .plain := by
  unfold Quoted.step Quoted.endUnit Quoted.endPair at h
  repeat' split at h
  all_goals first
    | exact ⟨eq_of_beq ‹_›, ‹_›⟩
    | cases h

def isNumeric (b : UInt8) : Bool :=
  isDigit b || b == point || Numeral.isMark b || b == plus || b == minus

theorem numeric_of_more {n next : Numeral} (h : n.step b = .more next) : isNumeric b := by
  by_cases zero : b = byte '0'
  · subst zero; decide
  · simp only [Numeral.step, Numeral.afterDigits] at h
    grind [isNumeric]

theorem numeric_ne {c : UInt8} (h : isNumeric b) (hc : isNumeric c = false) : b ≠ c := by
  rintro rfl
  rw [h] at hc
  cases hc

theorem numeric_solid (h : isNumeric b) : isBlank b = false := by
  simp only [isBlank, Bool.or_eq_false_iff, beq_eq_false_iff_ne]
  exact ⟨⟨⟨numeric_ne h (by decide), numeric_ne h (by decide)⟩, numeric_ne h (by decide)⟩,
    numeric_ne h (by decide)⟩

theorem numeral_refused {n : Numeral} {reason : SyntaxError} (h : n.step b = .refused reason) :
    reason.isEnd = false := by
  simp only [Numeral.step] at h
  grind [SyntaxError.isEnd]

theorem ofDouble_error {x : Option Binary64} {reason : SyntaxError}
    (h : Numeral.ofDouble? x = .error reason) : reason = .numberOutOfRange := by
  cases x with
  | none => exact (Except.error.inj h).symm
  | some x => cases h

theorem ofScaled_error {negative : Bool} {significand : Nat} {exponent : Int} {reason : SyntaxError}
    (h : Numeral.ofScaled negative significand exponent = .error reason) :
    reason = .numberOutOfRange :=
  ofDouble_error h

theorem ofWhole_error {negative : Bool} {significand : Nat} {reason : SyntaxError}
    (h : Numeral.ofWhole negative significand = .error reason) : reason = .numberOutOfRange := by
  unfold Numeral.ofWhole at h
  extract_lets value at h
  split at h
  · cases h
  · exact ofDouble_error h

theorem numeral_error {n : Numeral} {reason : SyntaxError} (h : n.value = .error reason) :
    reason = .endInValue ∨ reason = .numberOutOfRange := by
  obtain ⟨negative, stage⟩ := n
  cases stage with
  | sign | point | mark | markSign => exact .inl (Except.error.inj h).symm
  | zero | whole => exact .inr (ofWhole_error h)
  | long | fraction | spilled | power => exact .inr (ofScaled_error h)
  | vanished => cases h

theorem numeral_ended {n : Numeral} {reason : SyntaxError} (ended : n.step b = .ended)
    (h : n.value = .error reason) : reason = .numberOutOfRange := by
  obtain ⟨negative, stage⟩ := n
  cases stage with
  | sign | mark =>
      simp only [Numeral.step] at ended
      repeat' split at ended
      all_goals cases ended
  | point | markSign =>
      simp only [Numeral.step] at ended
      split at ended <;> cases ended
  | zero | whole => exact ofWhole_error h
  | long | fraction | spilled | power => exact ofScaled_error h
  | vanished => cases h

theorem numeral_ends {n : Numeral} {number : Number} (h : n.value = .ok number)
    (other : isNumeric b = false) : n.step b = .ended := by
  simp only [isNumeric, Bool.or_eq_false_iff] at other
  obtain ⟨⟨⟨⟨digit, point⟩, mark⟩, -⟩, -⟩ := other
  obtain ⟨negative, stage⟩ := n
  cases stage with
  | sign | point _ _ | mark _ _ | markSign _ _ _ => cases h
  | _ => simp [Numeral.step, Numeral.afterDigits, digit, point, mark]

/-! ## Within a value that was opened -/

inductive Word : List UInt8 → Json → Prop
  | null : Word ("null".toList.map byte) .null
  | true : Word ("true".toList.map byte) (.bool true)
  | false : Word ("false".toList.map byte) (.bool false)

def isLetter (b : UInt8) : Bool := 0x61 ≤ b && b ≤ 0x7a

theorem word_letters {word : List UInt8} {value : Json} (h : Word word value) :
    ∀ b ∈ word, isLetter b := by
  cases h <;> exact List.all_eq_true.1 rfl

theorem word_not_number {word : List UInt8} {value : Json} (h : Word word value) :
    value.isNumber = false := by
  cases h <;> rfl

theorem letter_ne {c : UInt8} (h : isLetter b) (hc : isLetter c = false) : b ≠ c := by
  rintro rfl
  rw [h] at hc
  cases hc

theorem letter_solid (h : isLetter b) : isBlank b = false := by
  simp only [isBlank, Bool.or_eq_false_iff, beq_eq_false_iff_ne]
  exact ⟨⟨⟨letter_ne h (by decide), letter_ne h (by decide)⟩, letter_ne h (by decide)⟩,
    letter_ne h (by decide)⟩

inductive Begins (stack : List Frame) (b : UInt8) : Move → Prop
  | string (h : b = quote) : Begins stack b (.more ⟨.string .start, stack⟩)
  | list (h : b = openBracket) : Begins stack b (.more ⟨.firstItem, stack⟩)
  | object (h : b = openBrace) : Begins stack b (.more ⟨.firstKey, stack⟩)
  | number {numeral : Numeral} (numeric : isNumeric b) : Begins stack b (.more ⟨.number numeral, stack⟩)
  | literal {due : List UInt8} {value : Json} (going : due ≠ []) (word : Word (b :: due) value) :
      Begins stack b (.more ⟨.literal due value, stack⟩)
  | refused {reason : SyntaxError} (notEnd : reason.isEnd = false) : Begins stack b (.refused reason 0)

theorem begin_begins (room : Nat) (stack : List Frame) (b : UInt8) :
    Begins stack b (Reader.begin room stack b) := by
  unfold Reader.begin
  split
  · next same => exact .string (eq_of_beq same)
  split
  · next same =>
      split
      · exact .list (eq_of_beq same)
      · exact .refused rfl
  split
  · next same =>
      split
      · exact .object (eq_of_beq same)
      · exact .refused rfl
  split
  · next same => exact .number (by simp [isNumeric, same])
  split
  · next same => exact .number (eq_of_beq same ▸ rfl)
  split
  · next digit => exact .number (by simp [isNumeric, digit])
  split
  · next same => exact .literal (by decide) (eq_of_beq same ▸ .null)
  split
  · next same => exact .literal (by decide) (eq_of_beq same ▸ .true)
  split
  · next same => exact .literal (by decide) (eq_of_beq same ▸ .false)
  · exact .refused rfl

inductive BeginsNumber (b : UInt8) : Numeral → Prop
  | sign (same : b = minus) : BeginsNumber b ⟨true, .sign⟩
  | zero (same : b = byte '0') : BeginsNumber b ⟨false, .zero⟩
  | digit (nonzero : b ≠ byte '0') (digit : isDigit b) : BeginsNumber b ⟨false, .whole (Ascii.digit b)⟩

theorem begin_number {stack : List Frame} (numeric : isNumeric b) (step : Reader.begin room stack b = .more r) :
    ∃ n, r = ⟨.number n, stack⟩ ∧ BeginsNumber b n := by
  have ne {c : UInt8} (hc : isNumeric c = false) : (b == c) = false := by simpa using numeric_ne numeric hc
  simp only [Reader.begin, ne (c := quote) (by decide), ne (c := openBracket) (by decide),
    ne (c := openBrace) (by decide), ne (c := byte 'n') (by decide), ne (c := byte 't') (by decide),
    ne (c := byte 'f') (by decide), Bool.false_eq_true, if_false] at step
  split at step
  · next same =>
      cases step
      exact ⟨_, rfl, .sign (eq_of_beq same)⟩
  split at step
  · next same =>
      cases step
      exact ⟨_, rfl, .zero (eq_of_beq same)⟩
  · next nonzero =>
      split at step <;> cases step
      next digit => exact ⟨_, rfl, .digit (by simpa using nonzero) digit⟩

def Opened (r : Reader) : Prop := match r.mode with
  | .value | .number _ => r.stack ≠ []
  | .literal due value => r.stack ≠ [] ∧ due ≠ [] ∧ ∃ read, Word (read ++ due) value
  | _ => True

def Between : Mode → Prop
  | .afterItem _ | .nextItem _ | .afterMember _ | .nextKey _ => True
  | _ => False

theorem opened_between {mode : Mode} {stack : List Frame} (h : Between mode) : Opened ⟨mode, stack⟩ := by
  cases mode <;> trivial

inductive Proceeds (stack : List Frame) (b : UInt8) : Move → Prop
  | stays {mode : Mode} (blank : isBlank b) (between : Between mode) : Proceeds stack b (.more ⟨mode, stack⟩)
  | next {mode : Mode} (same : b = comma) (between : Between mode) : Proceeds stack b (.more ⟨mode, stack⟩)
  | closes {value : Json} (close : b = closeBracket ∨ b = closeBrace) (plain : value.isNumber = false) :
      Proceeds stack b (Reader.settle value stack)
  | refused {reason : SyntaxError} (notEnd : reason.isEnd = false) : Proceeds stack b (.refused reason 0)

theorem afterItem_proceeds (read : List Json) (stack : List Frame) (b : UInt8) :
    Proceeds stack b (Reader.stepAfterItem read stack b) := by
  unfold Reader.stepAfterItem
  split
  · next blank => exact .stays blank trivial
  split
  · next same => exact .next (eq_of_beq same) trivial
  split
  · next same => exact .closes (.inl (eq_of_beq same)) rfl
  · exact .refused rfl

theorem afterMember_proceeds (read : List (String × Json)) (stack : List Frame) (b : UInt8) :
    Proceeds stack b (Reader.stepAfterMember read stack b) := by
  unfold Reader.stepAfterMember
  split
  · next blank => exact .stays blank trivial
  split
  · next same => exact .next (eq_of_beq same) trivial
  split
  · next same => exact .closes (.inr (eq_of_beq same)) rfl
  · exact .refused rfl

def Sound (b : UInt8) : Move → Prop
  | .more next => Opened next
  | .done value => value.isNumber = false ∧ isBlank b = false
  | .doneBefore _ => False
  | .refused reason _ | .refusedBefore reason => reason.isEnd = false

variable {stack : List Frame} {value : Json}

theorem sound_settle (solid : isBlank b = false) (h : stack = [] → value.isNumber = false) :
    Sound b (Reader.settle value stack) := by
  cases stack with
  | nil => exact ⟨h rfl, solid⟩
  | cons frame stack => cases frame <;> trivial

theorem sound_proceeds {move : Move} (h : Proceeds stack b move) : Sound b move := by
  cases h with
  | stays _ between | next _ between => exact opened_between between
  | closes close plain =>
      refine sound_settle ?_ fun _ => plain
      rcases close with rfl | rfl <;> rfl
  | refused notEnd => exact notEnd

theorem sound_begin (h : stack ≠ []) : Sound b (Reader.begin room stack b) := by
  have begins := begin_begins room stack b
  generalize Reader.begin room stack b = move at begins ⊢
  cases begins with
  | string | list | object => trivial
  | number => exact h
  | literal going word => exact ⟨h, going, [b], word⟩
  | refused notEnd => exact notEnd

theorem sound_quoted {text : Quoted} {more : Quoted → Move} {closed : String → Move}
    (hmore : ∀ next, Sound b (more next))
    (hclosed : isBlank b = false → ∀ s, Sound b (closed s)) :
    Sound b (Reader.stepQuoted text more closed b) := by
  unfold Reader.stepQuoted
  split
  · exact hmore _
  · next reason refused => exact quoted_refused refused
  · next content ends =>
      split
      · rw [(quoted_closed ends).1] at hclosed ⊢
        exact hclosed (by decide) _
      · rfl

theorem sound_number {numeral : Numeral} (h : stack ≠ []) :
    Sound b (Reader.stepNumber numeral stack b) := by
  unfold Reader.stepNumber
  split
  · exact h
  · next reason refused => exact numeral_refused refused
  · next ended =>
      split
      · next reason error =>
          cases numeral_ended ended error
          rfl
      · split
        · exact absurd rfl h
        · exact sound_proceeds (afterItem_proceeds _ _ b)
        · exact sound_proceeds (afterMember_proceeds _ _ b)

theorem sound_step (room : Nat) (h : Opened r) (b : UInt8) : Sound b (r.step room b) := by
  obtain ⟨mode, stack⟩ := r
  cases mode with
  | value =>
      simp only [Reader.step]
      split
      · exact h
      · exact sound_begin h
  | firstItem =>
      simp only [Reader.step]
      split
      · trivial
      next solid =>
        split
        · exact sound_settle (Bool.eq_false_iff.2 solid) fun _ => rfl
        · exact sound_begin (by simp)
  | nextItem read =>
      simp only [Reader.step]
      split
      · trivial
      split
      · rfl
      · exact sound_begin (by simp)
  | afterItem read => exact sound_proceeds (afterItem_proceeds read stack b)
  | firstKey =>
      simp only [Reader.step]
      split
      · trivial
      next solid =>
        split
        · trivial
        split
        · exact sound_settle (Bool.eq_false_iff.2 solid) fun _ => rfl
        · rfl
  | nextKey read =>
      simp only [Reader.step]
      repeat' split
      all_goals trivial
  | key read text => exact sound_quoted (fun _ => trivial) fun _ _ => trivial
  | colon read key =>
      simp only [Reader.step]
      split
      · trivial
      split
      · exact List.cons_ne_nil _ _
      · rfl
  | afterMember read => exact sound_proceeds (afterMember_proceeds read stack b)
  | literal due value =>
      obtain ⟨inner, going, read, word⟩ := h
      match due with
      | [] => exact absurd rfl going
      | [last] =>
          simp only [Reader.step]
          split
          · next same =>
              rw [eq_of_beq same]
              exact sound_settle (letter_solid (word_letters word last (by simp)))
                fun outer => absurd outer inner
          · rfl
      | first :: second :: due =>
          simp only [Reader.step]
          split
          · exact ⟨inner, by simp, read ++ [first], by simpa using word⟩
          · rfl
  | number numeral => exact sound_number h
  | string text =>
      exact sound_quoted (fun _ => trivial) fun solid _ => sound_settle solid fun _ => rfl

/-! ## From the start of an input -/

def Opens (b : UInt8) : Prop := b = openBracket ∨ b = openBrace ∨ b = quote

/-- How the first bytes of an input lead from the start to a state. -/
inductive Trace : List UInt8 → Reader → Prop
  | blank {blanks : List UInt8} (h : ∀ b ∈ blanks, isBlank b) : Trace blanks .start
  | literal {blanks read due : List UInt8} {value : Json} (h : ∀ b ∈ blanks, isBlank b)
      (begun : read ≠ []) (going : due ≠ []) (word : Word (read ++ due) value) :
      Trace (blanks ++ read) ⟨.literal due value, []⟩
  | number {blanks more : List UInt8} {first : UInt8} {numeral : Numeral}
      (h : ∀ b ∈ blanks, isBlank b) (numeric : ∀ b ∈ first :: more, isNumeric b) :
      Trace (blanks ++ first :: more) ⟨.number numeral, []⟩
  | opened {blanks more : List UInt8} {first : UInt8} {r : Reader}
      (h : ∀ b ∈ blanks, isBlank b) (opens : Opens first) (opened : Opened r) :
      Trace (blanks ++ first :: more) r

theorem trace_begin {blanks : List UInt8} (h : ∀ b ∈ blanks, isBlank b)
    (step : Reader.begin room [] b = .more next) : Trace (blanks ++ [b]) next := by
  have begins := begin_begins room [] b
  rw [step] at begins
  cases begins with
  | string same => exact .opened h (.inr (.inr same)) trivial
  | list same => exact .opened h (.inl same) trivial
  | object same => exact .opened h (.inr (.inl same)) trivial
  | number numeric => exact .number h (by simpa using numeric)
  | literal going word => exact .literal h (List.cons_ne_nil b []) going word

theorem trace_step (h : Trace text r) (step : r.step room b = .more next) :
    Trace (text ++ [b]) next := by
  cases h with
  | blank h =>
      simp only [Reader.start, Reader.step] at step
      split at step
      · next blank =>
          cases step
          exact .blank fun c hc => by
            rcases List.mem_append.1 hc with hc | hc
            · exact h c hc
            · rw [List.mem_singleton.1 hc]; exact blank
      · exact trace_begin h step
  | @literal blanks read due value h begun going word =>
      match due with
      | [] => exact absurd rfl going
      | [last] =>
          simp only [Reader.step, Reader.settle] at step
          split at step <;> cases step
      | first :: second :: due =>
          simp only [Reader.step] at step
          split at step
          · next same =>
              cases step
              rw [List.append_assoc, eq_of_beq same]
              exact .literal h (by simp) (by simp) (by simpa using word)
          · cases step
  | number h numeric =>
      simp only [Reader.step, Reader.stepNumber] at step
      split at step
      · next goes =>
          cases step
          rw [List.append_assoc, List.cons_append]
          refine .number h fun c hc => ?_
          rcases List.mem_append.1 (List.cons_append ▸ hc) with hc | hc
          · exact numeric c hc
          · rw [List.mem_singleton.1 hc]
            exact numeric_of_more goes
      · cases step
      · split at step <;> cases step
  | opened h opens opened =>
      rw [List.append_assoc]
      have sound := sound_step room opened b
      rw [step] at sound
      exact .opened h opens sound

theorem trace_advance (h : Trace text r) (goes : advance room r rest = some last) :
    Trace (text ++ rest) last := by
  induction rest generalizing text r with
  | nil => cases goes; simpa using h
  | cons b rest ih =>
      obtain ⟨next, step, goes⟩ := advance_cons_eq_some.1 goes
      simpa using ih (trace_step h step) goes

theorem trace_start : Trace [] .start := .blank (by simp)

theorem trace_of_advance (h : advance room .start text = some last) : Trace text last :=
  trace_advance trace_start h

theorem advance_blanks (room : Nat) {blanks : List UInt8} (h : ∀ b ∈ blanks, isBlank b) :
    advance room .start blanks = some .start := by
  induction blanks with
  | nil => rfl
  | cons b blanks ih =>
      have step : Reader.start.step room b = .more .start := by
        simp [Reader.start, Reader.step, h b (by simp)]
      rw [advance_cons step]
      exact ih fun c hc => h c (by simp [hc])

def Final (text : List UInt8) (b : UInt8) : Move → Prop
  | .more _ => True
  | .done value => value.isNumber = false ∧ isBlank b = false ∧
      ∃ blanks first more, text ++ [b] = blanks ++ first :: more ∧ (∀ c ∈ blanks, isBlank c) ∧
        (Opens first ∨ Word (first :: more) value)
  | .doneBefore value => value.isNumber ∧
      ∃ blanks first more, text = blanks ++ first :: more ∧ (∀ c ∈ blanks, isBlank c) ∧
        ∀ c ∈ first :: more, isNumeric c
  | .refused reason _ | .refusedBefore reason => reason.isEnd = false

theorem final_begin (room : Nat) (text : List UInt8) (b : UInt8) :
    Final text b (Reader.begin room [] b) := by
  have begins := begin_begins room [] b
  generalize Reader.begin room [] b = move at begins ⊢
  cases begins with
  | refused notEnd => exact notEnd
  | _ => trivial

theorem final_step (room : Nat) (h : Trace text r) (b : UInt8) : Final text b (r.step room b) := by
  cases h with
  | blank h =>
      simp only [Reader.start, Reader.step]
      split
      · trivial
      · exact final_begin room text b
  | @literal blanks read due value h begun going word =>
      match due with
      | [] => exact absurd rfl going
      | [last] =>
          simp only [Reader.step]
          split
          · next same =>
              obtain ⟨first, more, rfl⟩ := List.exists_cons_of_ne_nil begun
              rw [eq_of_beq same]
              have letters := word_letters word
              exact ⟨word_not_number word, letter_solid (letters last (by simp)), blanks, first,
                more ++ [last], by simp, h, .inr (by simpa using word)⟩
          · rfl
      | first :: second :: due =>
          simp only [Reader.step]
          split
          · trivial
          · rfl
  | @number blanks more first numeral h numeric =>
      simp only [Reader.step, Reader.stepNumber]
      split
      · trivial
      · next reason refused => exact numeral_refused refused
      · next ended =>
          split
          · next reason error =>
              cases numeral_ended ended error
              rfl
          · exact ⟨rfl, blanks, first, more, rfl, h, numeric⟩
  | @opened blanks more first r h opens opened =>
      have sound := sound_step room opened b
      generalize r.step room b = move at sound ⊢
      cases move with
      | more next => trivial
      | done value => exact ⟨sound.1, sound.2, blanks, first, more ++ [b], by simp, h, .inl opens⟩
      | doneBefore value => exact sound.elim
      | refused reason back => exact sound
      | refusedBefore reason => exact sound

/-! ## Literals -/

theorem begin_word (room : Nat) (stack : List Frame) {word : List UInt8} {value : Json}
    (literal : Word word value) :
    ∃ first due, word = first :: due ∧ due ≠ [] ∧ isLetter first ∧
      Reader.begin room stack first = .more ⟨.literal due value, stack⟩ := by
  cases literal <;> exact ⟨_, _, rfl, by decide, rfl, rfl⟩

theorem advance_literal {read due : List UInt8} {value : Json} {stack : List Frame} (going : due ≠ []) :
    advance room ⟨.literal (read ++ due) value, stack⟩ read = some ⟨.literal due value, stack⟩ := by
  induction read with
  | nil => rfl
  | cons b read ih =>
      obtain ⟨first, more, left⟩ := List.exists_cons_of_ne_nil (l := read ++ due) (by simp [going])
      have step : Reader.step room ⟨.literal (b :: (read ++ due)) value, stack⟩ b =
          .more ⟨.literal (read ++ due) value, stack⟩ := by
        rw [left]
        simp [Reader.step]
      rw [List.cons_append, advance_cons step, ih]

/-! ## The end of the input -/

theorem finish_ok {value : Json} (h : r.finish = .ok value) : value.isNumber ∧ ¬ Opened r := by
  obtain ⟨mode, stack⟩ := r
  cases mode <;> simp only [Reader.finish] at h
  all_goals try cases h
  next numeral =>
    split at h
    · cases h
    · cases stack with
      | nil => cases h; exact ⟨rfl, fun opened => opened rfl⟩
      | cons frame stack => cases frame <;> cases h

theorem finish_of_doneBefore {value : Json} (h : Trace text r)
    (step : r.step room b = .doneBefore value) : r.finish = .ok value := by
  cases h with
  | blank h =>
      have kind := final_begin room [] b
      simp only [Reader.start, Reader.step] at step
      split at step
      · cases step
      · rw [step] at kind
        obtain ⟨-, blanks, first, more, shape, -⟩ := kind
        simp at shape
  | @literal blanks read due value h begun going word =>
      rcases due with _ | ⟨first, _ | ⟨second, due⟩⟩
      · exact absurd rfl going
      all_goals
        simp only [Reader.step, Reader.settle] at step
        split at step <;> cases step
  | number h numeric =>
      simp only [Reader.step, Reader.stepNumber] at step
      split at step
      · cases step
      · cases step
      · split at step
        · cases step
        · next complete =>
            cases step
            simp [Reader.finish, complete, Reader.endAround]
  | opened h opens opened =>
      have sound := sound_step room opened b
      rw [step] at sound
      exact sound.elim

theorem doneBefore_of_finish {value : Json} (h : r.finish = .ok value) (other : isNumeric b = false) :
    r.step room b = .doneBefore value := by
  obtain ⟨mode, stack⟩ := r
  cases mode <;> simp only [Reader.finish] at h
  all_goals try cases h
  next numeral =>
    split at h
    · cases h
    · next number complete =>
        rcases stack with _ | ⟨_ | _, stack⟩ <;> cases h
        simp [Reader.step, Reader.stepNumber, numeral_ends complete other, complete]

theorem finish_error {reason : SyntaxError} (h : r.finish = .error reason) :
    reason.isEnd ∨ reason = .numberOutOfRange := by
  obtain ⟨mode, stack⟩ := r
  cases mode <;> simp only [Reader.finish] at h
  all_goals try (cases h; exact .inl rfl)
  next numeral =>
    split at h
    · next error =>
        cases h
        rcases numeral_error error with rfl | rfl
        · exact .inl rfl
        · exact .inr rfl
    · rcases stack with _ | ⟨_ | _, stack⟩ <;> cases h <;> exact .inl rfl

theorem solid_of_advance {value : Json} (goes : advance room .start text = some last)
    (ends : last.finish = .ok value) : ∃ blanks first more, text = blanks ++ first :: more ∧
      (∀ c ∈ blanks, isBlank c) ∧ ∀ c ∈ first :: more, isNumeric c := by
  cases trace_of_advance goes with
  | blank h => cases ends
  | literal h begun going word => cases ends
  | @number blanks more first numeral h numeric => exact ⟨blanks, first, more, rfl, h, numeric⟩
  | opened h opens opened => exact absurd opened (finish_ok ends).2

end SocketRpc.Proofs.Json
