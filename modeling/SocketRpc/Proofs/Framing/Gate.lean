import SocketRpc.Framing.Boundary
import SocketRpc.Proofs.Framing.Verdict

/-!
# When the bytes are inspected

The boundary knows the nesting and the quotes of the bytes received, and nothing else of what the
reader knows.

* `outline` is the boundary that belongs to a state of the reader. A step of the reader is a step of
  its outline (`mirrors_step`), unless it has met a digit that is no digit in an escape; such a text
  can only be refused (`Doomed`).
* `quiet_of_opens`: while an array, an object or a quoted text at the start of the input is open, no
  byte asks for an inspection.
* `fires_of_done`: the byte that ends a value asks for one, in whatever chunk it comes in.
-/

namespace SocketRpc.Proofs.Framing
open SocketRpc.Json SocketRpc.Framing SocketRpc.Proofs.Json Ascii

variable {room : Nat} {r next last : Reader} {b : UInt8} {text rest : List UInt8}

/-! ## Outlines -/

def quoting (r : Reader) : Option Quoted := match r.mode with
  | .key _ text | .string text => some text
  | _ => none

def nesting (r : Reader) : Nat := match r.mode with
  | .value | .literal .. | .number _ | .string _ => r.stack.length
  | _ => r.stack.length + 1

def escaping : Place → Bool
  | .escape | .afterHighEscape _ => true
  | _ => false

def outline (r : Reader) : Boundary :=
  ⟨nesting r, (quoting r).isSome, (quoting r).any (escaping ·.place)⟩

def unitDigits : Place → List UInt8
  | .codeUnit digits | .lowUnit _ digits => digits
  | _ => []

def Spoilt (q : Quoted) : Prop := ∃ d ∈ unitDigits q.place, hexDigit? d = none

def Doomed (r : Reader) : Prop := ∃ q, quoting r = some q ∧ Spoilt q

/-! ## Quoted texts -/

theorem hexDigit_plain (h : hexDigit? b ≠ none) : b ≠ quote ∧ b ≠ backslash := by
  constructor <;> rintro rfl <;> exact h (by decide)

def within (depth : Nat) (q : Quoted) : Boundary := ⟨depth, true, escaping q.place⟩

theorem step_within_plain {depth : Nat} {q : Quoted} (place : escaping q.place = false)
    (h : b ≠ quote ∧ b ≠ backslash) : (within depth q).step b = (⟨depth, true, false⟩, false) := by
  simp [within, Boundary.step, place, h.1, h.2]

theorem quoted_more {q after : Quoted} (depth : Nat) (step : q.step b = .more after) :
    Spoilt after ∨ (within depth q).step b = (within depth after, false) := by
  obtain ⟨content, place⟩ := q
  cases place with
  | plain =>
      refine .inr ?_
      simp only [Quoted.step] at step
      repeat' split at step
      all_goals cases step
      all_goals simp_all [within, Boundary.step, escaping]
  | escape =>
      refine .inr ?_
      simp only [Quoted.step] at step
      repeat' split at step
      all_goals cases step
      all_goals simp [within, Boundary.step, escaping]
  | codeUnit digits =>
      -- A byte that is no digit is refused only with the last digit of the unit.
      simp only [Quoted.step] at step
      cases digit : hexDigit? b with
      | none =>
          split at step
          · cases step; exact .inl ⟨b, by simp [unitDigits], digit⟩
          · simp [Quoted.endUnit, Quoted.codeUnit?, digit] at step
      | some value =>
          refine .inr ?_
          rw [step_within_plain rfl (hexDigit_plain (by simp [digit]))]
          unfold Quoted.endUnit at step
          repeat' split at step
          all_goals cases step
          all_goals rfl
  | afterHigh high =>
      refine .inr ?_
      simp only [Quoted.step] at step
      split at step <;> cases step
      simp_all [within, Boundary.step, escaping]
  | afterHighEscape high =>
      refine .inr ?_
      simp only [Quoted.step] at step
      split at step <;> cases step
      simp [within, Boundary.step, escaping]
  | lowUnit high digits =>
      simp only [Quoted.step] at step
      cases digit : hexDigit? b with
      | none =>
          split at step
          · cases step; exact .inl ⟨b, by simp [unitDigits], digit⟩
          · simp [Quoted.endPair, Quoted.codeUnit?, digit] at step
      | some value =>
          refine .inr ?_
          rw [step_within_plain rfl (hexDigit_plain (by simp [digit]))]
          unfold Quoted.endPair at step
          repeat' split at step
          · cases step; rfl
          · cases step
          · rw [← QuotedMove.more.inj step]; rfl
          · cases step

theorem quoted_ends {q : Quoted} {content : List UInt8} (depth : Nat)
    (step : q.step b = .closed content) :
    (within depth q).step b = (⟨depth, false, false⟩, depth == 0) := by
  obtain ⟨rfl, plain⟩ := quoted_closed step
  simp [within, Boundary.step, plain, escaping]

theorem spoilt_more {q after : Quoted} (h : Spoilt q) (step : q.step b = .more after) :
    Spoilt after := by
  obtain ⟨content, place⟩ := q
  obtain ⟨d, member, bad⟩ := h
  cases place with
  | codeUnit digits =>
      simp only [Quoted.step] at step
      split at step
      · cases step
        exact ⟨d, List.mem_cons_of_mem _ member, bad⟩
      · have none : Quoted.codeUnit? (b :: digits) = none :=
          codeUnit_of_mem (List.mem_cons_of_mem b member) bad
        simp [Quoted.endUnit, none] at step
  | lowUnit high digits =>
      simp only [Quoted.step] at step
      split at step
      · cases step
        exact ⟨d, List.mem_cons_of_mem _ member, bad⟩
      · have none : Quoted.codeUnit? (b :: digits) = none :=
          codeUnit_of_mem (List.mem_cons_of_mem b member) bad
        simp [Quoted.endPair, none] at step
  | plain | escape | afterHigh high | afterHighEscape high => cases member

theorem spoilt_open {q : Quoted} {content : List UInt8} (h : Spoilt q) :
    q.step b ≠ .closed content := by
  intro step
  obtain ⟨d, member, bad⟩ := h
  rw [(quoted_closed step).2] at member
  cases member

theorem doomed_more (h : Doomed r) (step : r.step room b = .more next) : Doomed next := by
  obtain ⟨q, reading, spoilt⟩ := h
  obtain ⟨mode, stack⟩ := r
  cases mode <;> simp only [quoting] at reading <;> cases reading
  all_goals
    simp only [Reader.step, Reader.stepQuoted] at step
    split at step
    · next after goes => cases step; exact ⟨after, rfl, spoilt_more spoilt goes⟩
    · cases step
    · next ends => exact absurd ends (spoilt_open spoilt)

theorem doomed_open {value : Json} (h : Doomed r) : r.step room b ≠ .done value := by
  intro step
  obtain ⟨q, reading, spoilt⟩ := h
  obtain ⟨mode, stack⟩ := r
  cases mode <;> simp only [quoting] at reading <;> cases reading
  all_goals
    simp only [Reader.step, Reader.stepQuoted] at step
    split at step
    · cases step
    · cases step
    · next ends => exact absurd ends (spoilt_open spoilt)

theorem doomed_advance (h : Doomed r) (goes : advance room r text = some last) : Doomed last := by
  induction text generalizing r with
  | nil => cases goes; exact h
  | cons b text ih =>
      obtain ⟨next, step, goes⟩ := advance_cons_eq_some.1 goes
      exact ih (doomed_more h step) goes

/-! ## One byte -/

def isStructural (b : UInt8) : Bool :=
  b == quote || b == openBrace || b == openBracket || b == closeBrace || b == closeBracket

theorem step_plain (depth : Nat) (h : isStructural b = false) :
    (⟨depth, false, false⟩ : Boundary).step b = (⟨depth, false, false⟩, depth == 0) := by
  simp only [isStructural, Bool.or_eq_false_iff, beq_eq_false_iff_ne] at h
  simp [Boundary.step, h]

theorem step_top (h : isOpening b = false) : (Boundary.start.step b).2 = true := by
  simp only [isOpening, Bool.or_eq_false_iff, beq_eq_false_iff_ne] at h
  by_cases close : b = closeBrace ∨ b = closeBracket
  · rcases close with rfl | rfl <;> rfl
  · rw [not_or] at close
    simp [Boundary.start, Boundary.step, h, close]

theorem opening_plain (h : isStructural b = false) : isOpening b = false := by
  simp only [isStructural, Bool.or_eq_false_iff] at h
  simp [isOpening, h]

theorem blank_plain (h : isBlank b) : isStructural b = false := by
  simp only [isBlank, Bool.or_eq_true, beq_iff_eq] at h
  rcases h with ((rfl | rfl) | rfl) | rfl <;> decide

theorem numeric_plain (h : isNumeric b) : isStructural b = false := by
  simp only [isStructural, Bool.or_eq_false_iff, beq_eq_false_iff_ne]
  exact ⟨⟨⟨⟨numeric_ne h (by decide), numeric_ne h (by decide)⟩, numeric_ne h (by decide)⟩,
    numeric_ne h (by decide)⟩, numeric_ne h (by decide)⟩

theorem letter_plain (h : isLetter b) : isStructural b = false := by
  simp only [isStructural, Bool.or_eq_false_iff, beq_eq_false_iff_ne]
  exact ⟨⟨⟨⟨letter_ne h (by decide), letter_ne h (by decide)⟩, letter_ne h (by decide)⟩,
    letter_ne h (by decide)⟩, letter_ne h (by decide)⟩

theorem plain_of_finish {value : Json} (goes : Reaches text r) (ends : r.finish = .ok value) :
    ∀ c ∈ text, isStructural c = false := by
  obtain ⟨blanks, first, more, rfl, blank, numeric⟩ := solid_of_advance goes ends
  intro c hc
  rcases List.mem_append.1 hc with hc | hc
  · exact blank_plain (blank c hc)
  · exact numeric_plain (numeric c hc)

def Mirrors (inside : Prop) (s : Boundary × Bool) : Move → Prop
  | .more next => Doomed next ∨ s.1 = outline next ∧ (inside → s.2 = false)
  | .done _ => s.2 = true
  | _ => True

variable {inside : Prop} {stack : List Frame}

theorem outline_between {mode : Mode} (h : Between mode) :
    outline ⟨mode, stack⟩ = ⟨stack.length + 1, false, false⟩ := by
  cases mode <;> first | rfl | cases h

theorem mirrors_settle (inside : Prop) (value : Json) (stack : List Frame) :
    Mirrors inside (⟨stack.length, false, false⟩, stack.length == 0) (Reader.settle value stack) := by
  rcases stack with _ | ⟨_ | _, stack⟩
  · rfl
  all_goals exact .inr ⟨rfl, fun _ => rfl⟩

theorem mirrors_proceeds {move : Move} (h : Proceeds stack b move) :
    Mirrors inside ((⟨stack.length + 1, false, false⟩ : Boundary).step b) move := by
  cases h with
  | stays blank between =>
      rw [step_plain _ (blank_plain blank)]
      exact .inr ⟨(outline_between between).symm, fun _ => rfl⟩
  | next same between =>
      rw [same]
      exact .inr ⟨(outline_between between).symm, fun _ => rfl⟩
  | closes close plain =>
      rcases close with rfl | rfl
      all_goals exact mirrors_settle inside _ stack
  | refused => trivial

theorem mirrors_begin (stack : List Frame) (inner : inside → stack ≠ []) (b : UInt8) :
    Mirrors inside ((⟨stack.length, false, false⟩ : Boundary).step b)
      (Reader.begin room stack b) := by
  have deep (h : inside) : (stack.length == 0) = false := by simpa using inner h
  have begins := begin_begins room stack b
  generalize Reader.begin room stack b = move at begins ⊢
  cases begins with
  | string same | list same | object same => exact same ▸ .inr ⟨rfl, fun _ => rfl⟩
  | number numeric =>
      rw [step_plain _ (numeric_plain numeric)]
      exact .inr ⟨rfl, deep⟩
  | literal going word =>
      rw [step_plain _ (letter_plain (word_letters word b (by simp)))]
      exact .inr ⟨rfl, deep⟩
  | refused => trivial

theorem mirrors_quoted (depth : Nat) {text : Quoted} {more : Quoted → Move} {closed : String → Move}
    (hmore : ∀ after, text.step b = .more after → Spoilt after ∨
      (within depth text).step b = (within depth after, false) →
        Mirrors inside ((within depth text).step b) (more after))
    (hclosed : ∀ s, Mirrors inside (⟨depth, false, false⟩, depth == 0) (closed s)) :
    Mirrors inside ((within depth text).step b) (Reader.stepQuoted text more closed b) := by
  unfold Reader.stepQuoted
  split
  · next after goes => exact hmore after goes (quoted_more depth goes)
  · trivial
  · next content ends =>
      rw [quoted_ends depth ends]
      split
      · exact hclosed _
      · trivial

theorem mirrors_number {numeral : Numeral} (inner : inside → stack ≠ []) (b : UInt8) :
    Mirrors inside ((⟨stack.length, false, false⟩ : Boundary).step b)
      (Reader.stepNumber numeral stack b) := by
  unfold Reader.stepNumber
  split
  · next goes =>
      rw [step_plain _ (numeric_plain (numeric_of_more goes))]
      exact .inr ⟨rfl, fun h => by simpa using inner h⟩
  · trivial
  · split
    · trivial
    · split
      · trivial
      · exact mirrors_proceeds (afterItem_proceeds _ _ b)
      · exact mirrors_proceeds (afterMember_proceeds _ _ b)

theorem mirrors_literal {due : List UInt8} (value : Json) (letters : ∀ c ∈ due, isLetter c)
    (going : due ≠ []) (inner : inside → stack ≠ []) (b : UInt8) :
    Mirrors inside ((⟨stack.length, false, false⟩ : Boundary).step b)
      (Reader.step room ⟨.literal due value, stack⟩ b) := by
  have deep (h : inside) : (stack.length == 0) = false := by simpa using inner h
  match due with
  | [] => exact absurd rfl going
  | [last] =>
      simp only [Reader.step]
      split
      · next same =>
          rw [eq_of_beq same, step_plain _ (letter_plain (letters last (by simp)))]
          exact mirrors_settle inside value stack
      · trivial
  | first :: second :: due =>
      simp only [Reader.step]
      split
      · next same =>
          rw [eq_of_beq same, step_plain _ (letter_plain (letters first (by simp)))]
          exact .inr ⟨rfl, deep⟩
      · trivial

theorem mirrors_opened (room : Nat) (h : Opened r) (b : UInt8) :
    Mirrors True ((outline r).step b) (r.step room b) := by
  obtain ⟨mode, stack⟩ := r
  have blank_stays (depth : Nat) {r : Reader} (same : outline r = ⟨depth + 1, false, false⟩)
      (blank : isBlank b) :
      Mirrors True ((⟨depth + 1, false, false⟩ : Boundary).step b) (.more r) := by
    rw [step_plain _ (blank_plain blank)]
    exact .inr ⟨same.symm, fun _ => rfl⟩
  cases mode with
  | value =>
      obtain ⟨frame, stack, rfl⟩ := List.exists_cons_of_ne_nil h
      simp only [Reader.step]
      split
      · next blank => exact blank_stays stack.length rfl blank
      · exact mirrors_begin _ (fun _ => h) b
  | firstItem =>
      simp only [Reader.step]
      split
      · next blank => exact blank_stays _ rfl blank
      split
      · next close =>
          rw [eq_of_beq close]
          exact mirrors_settle _ _ stack
      · exact mirrors_begin (.items [] :: stack) (by simp) b
  | nextItem read =>
      simp only [Reader.step]
      split
      · next blank => exact blank_stays _ rfl blank
      split
      · trivial
      · exact mirrors_begin (.items read :: stack) (by simp) b
  | afterItem read => exact mirrors_proceeds (afterItem_proceeds read stack b)
  | firstKey =>
      simp only [Reader.step]
      split
      · next blank => exact blank_stays _ rfl blank
      split
      · next open_ =>
          rw [eq_of_beq open_]
          exact .inr ⟨rfl, fun _ => rfl⟩
      split
      · next close =>
          rw [eq_of_beq close]
          exact mirrors_settle _ _ stack
      · trivial
  | nextKey read =>
      simp only [Reader.step]
      split
      · next blank => exact blank_stays _ rfl blank
      split
      · next open_ =>
          rw [eq_of_beq open_]
          exact .inr ⟨rfl, fun _ => rfl⟩
      split <;> trivial
  | key read text =>
      refine mirrors_quoted (stack.length + 1) ?_ fun _ => .inr ⟨rfl, fun _ => rfl⟩
      intro after _ steps
      rcases steps with spoilt | same
      · exact .inl ⟨after, rfl, spoilt⟩
      · rw [same]; exact .inr ⟨rfl, fun _ => rfl⟩
  | colon read key =>
      simp only [Reader.step]
      split
      · next blank => exact blank_stays _ rfl blank
      split
      · next colon =>
          rw [eq_of_beq colon]
          exact .inr ⟨rfl, fun _ => rfl⟩
      · trivial
  | afterMember read => exact mirrors_proceeds (afterMember_proceeds read stack b)
  | literal due value =>
      obtain ⟨inner, going, read, word⟩ := h
      exact mirrors_literal value (fun c hc => word_letters word c (by simp [hc])) going
        (fun _ => inner) b
  | number numeral => exact mirrors_number (fun _ => h) b
  | string text =>
      refine mirrors_quoted stack.length ?_ fun _ => mirrors_settle _ _ stack
      intro after _ steps
      rcases steps with spoilt | same
      · exact .inl ⟨after, rfl, spoilt⟩
      · rw [same]; exact .inr ⟨rfl, fun _ => rfl⟩

theorem mirrors_step (room : Nat) (h : Trace text r) (b : UInt8) :
    Mirrors (Opened r) ((outline r).step b) (r.step room b) := by
  cases h with
  | blank h =>
      simp only [Reader.start, Reader.step]
      split
      · next blank =>
          have same : outline ⟨.value, []⟩ = ⟨0, false, false⟩ := rfl
          rw [same, step_plain _ (blank_plain blank)]
          exact .inr ⟨rfl, fun opened => absurd rfl opened⟩
      · exact mirrors_begin _ (fun opened => absurd rfl opened) b
  | literal h begun going word =>
      exact mirrors_literal _ (fun c hc => word_letters word c (by simp [hc])) going
        (fun opened => opened.1) b
  | number h numeric => exact mirrors_number (fun opened => opened) b
  | opened h opens opened =>
      have mirrors := mirrors_opened room opened b
      cases step : r.step room b <;> rw [step] at mirrors
      · exact mirrors.imp id fun same => ⟨same.1, fun _ => same.2 trivial⟩
      all_goals exact mirrors

/-! ## Many bytes -/

theorem feed_cons (s : Boundary) (b : UInt8) (rest : List UInt8) : s.feed (b :: rest) =
    (((s.step b).1.feed rest).1, (s.step b).2 || ((s.step b).1.feed rest).2) := rfl

theorem feed_append (s : Boundary) (p q : List UInt8) :
    s.feed (p ++ q) = (((s.feed p).1.feed q).1, (s.feed p).2 || ((s.feed p).1.feed q).2) := by
  induction p generalizing s with
  | nil => simp [Boundary.feed]
  | cons b p ih => simp [Boundary.feed, ih, Bool.or_assoc]

theorem opening_of_quiet (quiet : (Boundary.start.feed (b :: rest)).2 = false) : isOpening b = true := by
  refine Bool.of_not_eq_false fun other => ?_
  rw [feed_cons, step_top other] at quiet
  cases quiet

theorem feed_plain {depth : Nat} (h : ∀ b ∈ text, isStructural b = false) :
    ((⟨depth, false, false⟩ : Boundary).feed text).1 = ⟨depth, false, false⟩ := by
  induction text with
  | nil => rfl
  | cons b text ih =>
      rw [feed_cons, step_plain depth (h b (by simp))]
      exact ih fun c hc => h c (by simp [hc])

theorem fires_of_plain (plain : ∀ b ∈ text, isStructural b = false) (ne : text ≠ []) (rest : List UInt8) :
    (Boundary.start.feed (text ++ rest)).2 = true := by
  obtain ⟨b, text, rfl⟩ := List.exists_cons_of_ne_nil ne
  rw [List.cons_append, feed_cons, step_top (opening_plain (plain b List.mem_cons_self)), Bool.true_or]

theorem feed_advance (h : Trace text r) (goes : advance room r rest = some last) : Doomed last ∨
    ((outline r).feed rest).1 = outline last ∧ (Opened r → ((outline r).feed rest).2 = false) := by
  -- What the boundary knows is the outline of the reader's state, until a text is spoilt.
  induction rest generalizing text r with
  | nil => cases goes; exact .inr ⟨rfl, fun _ => rfl⟩
  | cons b rest ih =>
      obtain ⟨next, step, goes⟩ := advance_cons_eq_some.1 goes
      have mirrors := mirrors_step room h b
      rw [step] at mirrors
      rcases mirrors with doomed | ⟨same, quiet⟩
      · exact .inl (doomed_advance doomed goes)
      · rcases ih (trace_step h step) goes with doomed | ⟨after, later⟩
        · exact .inl doomed
        · refine .inr ⟨by rw [feed_cons, same, after], fun opened => ?_⟩
          have sound := sound_step room opened b
          rw [step] at sound
          rw [feed_cons, quiet opened, same, later sound]
          rfl

theorem feed_reaches (h : Reaches text r) :
    Doomed r ∨ (Boundary.start.feed text).1 = outline r :=
  (feed_advance trace_start h).imp id And.left

theorem fires_of_done {held mid : List UInt8} {value : Json} (h : Reaches (held ++ mid) r)
    (step : r.step Json.maxDepth b = .done value) (rest : List UInt8) :
    ((Boundary.start.feed held).1.feed (mid ++ b :: rest)).2 = true := by
  have same : ((Boundary.start.feed held).1.feed mid).1 = outline r := by
    rcases feed_reaches h with doomed | same
    · exact absurd step (doomed_open doomed)
    · rwa [feed_append] at same
  have mirrors := mirrors_step Json.maxDepth (trace_of_advance h) b
  rw [step] at mirrors
  rw [feed_append, same, feed_cons, mirrors]
  simp

theorem quiet_of_opens {first : UInt8} (opens : Opens first) (h : Reaches (first :: text) r) :
    Doomed r ∨ (Boundary.start.feed (first :: text)).2 = false := by
  obtain ⟨next, step, goes⟩ := advance_cons_eq_some.1 h
  have opened : Opened next ∧ Boundary.start.step first = (outline next, false) := by
    rcases opens with rfl | rfl | rfl <;> cases step <;> exact ⟨trivial, rfl⟩
  refine (feed_advance (trace_step trace_start step) goes).imp id fun ⟨_, quiet⟩ => ?_
  rw [feed_cons, opened.2, quiet opened.1]
  rfl

/-! ## The gated verdict -/

/-- The verdict when a chunk comes in after the bytes held: the bytes are inspected only if one of
the chunk's asks for it. -/
def verdictAfter (held chunk : List UInt8) : Verdict :=
  if ((Boundary.start.feed held).1.feed chunk).2 then scan (held ++ chunk) else .incomplete

theorem scan_of_doomed (h : Reaches text r) (doomed : Doomed r) : scan text = .incomplete := by
  obtain ⟨q, reading, -⟩ := doomed
  rw [scan_open h]
  obtain ⟨mode, stack⟩ := r
  cases mode <;> simp only [quoting] at reading <;> cases reading <;> rfl

theorem verdictAfter_cases (held chunk : List UInt8) :
    verdictAfter held chunk = .incomplete ∨
    verdictAfter held chunk = scan (held ++ chunk) ∧
      (Boundary.start.feed (held ++ chunk)).2 = true := by
  unfold verdictAfter
  split
  · next fires => exact .inr ⟨rfl, by rw [feed_append, fires, Bool.or_true]⟩
  · exact .inl rfl

theorem scan_of_verdictAfter {held chunk : List UInt8} {verdict : Verdict}
    (h : verdictAfter held chunk = verdict) (settled : verdict ≠ .incomplete) :
    scan (held ++ chunk) = verdict ∧ (Boundary.start.feed (held ++ chunk)).2 = true := by
  rcases verdictAfter_cases held chunk with quiet | ⟨inspected, fires⟩
  · exact absurd (h.symm.trans quiet) settled
  · exact ⟨inspected.symm.trans h, fires⟩

theorem scan_opened {first : UInt8} {more : List UInt8} (opens : Opens first)
    (begins : text <+: first :: more) (h : Reaches text r)
    (fires : (Boundary.start.feed text).2 = true) : scan text = .incomplete := by
  cases text with
  | nil => rfl
  | cons c text =>
      obtain rfl := (List.cons_prefix_cons.1 begins).1
      rcases quiet_of_opens opens h with doomed | quiet
      · exact scan_of_doomed h doomed
      · rw [quiet] at fires
        cases fires

end SocketRpc.Proofs.Framing
