import SocketRpc.Proofs.Json.Spelling

/-!
# Reading inside containers

The containers around a value do not change how it is read; they only wait for it to end.

* `step_around` and `run_around`: a reader does within containers what it does without them, and then
  goes on as they say.
* `run_skip` drops the blanks before a token, and `run_text` and `run_keyText` read a quoted text at once.
* `run_suffix` and `read_shorter`: what is left is the end of the input, and a value is not empty.
-/

namespace SocketRpc.Proofs.Json
open SocketRpc.Json Ascii

variable {room : Nat} {r : Reader} {b : UInt8} {input rest : List UInt8} {tree : Json} {key : String}
variable {result : Json × List UInt8}

/-- What a byte does among containers, if this is what it does to the value within. A value that ends
before the byte leaves it to the innermost container. -/
def around (outer : List Frame) (b : UInt8) : Move → Move
  | .more next => .more ⟨next.mode, next.stack ++ outer⟩
  | .done value => Reader.settle value outer
  | .doneBefore value =>
      match outer with
      | [] => .doneBefore value
      | .items items :: stack => Reader.stepAfterItem (value :: items) stack b
      | .members members key :: stack => Reader.stepAfterMember ((key, value) :: members) stack b
  | .refused reason back => .refused reason back
  | .refusedBefore reason => .refusedBefore reason

variable {outer inner : List Frame}

theorem settle_around (value : Json) (inner outer : List Frame) (b : UInt8) :
    Reader.settle value (inner ++ outer) = around outer b (Reader.settle value inner) := by
  rcases inner with _ | ⟨_ | _, inner⟩ <;> rfl

theorem stepAfterItem_around (read : List Json) (inner outer : List Frame) (b : UInt8) :
    Reader.stepAfterItem read (inner ++ outer) b = around outer b (Reader.stepAfterItem read inner b) := by
  unfold Reader.stepAfterItem
  split
  · rfl
  split
  · rfl
  split
  · exact settle_around _ inner outer b
  · rfl

theorem stepAfterMember_around (read : List (String × Json)) (inner outer : List Frame) (b : UInt8) :
    Reader.stepAfterMember read (inner ++ outer) b =
      around outer b (Reader.stepAfterMember read inner b) := by
  unfold Reader.stepAfterMember
  split
  · rfl
  split
  · rfl
  split
  · exact settle_around _ inner outer b
  · rfl

theorem begin_around (room : Nat) (inner outer : List Frame) (b : UInt8) :
    Reader.begin room (inner ++ outer) b = around outer b (Reader.begin (room - outer.length) inner b) := by
  have left : (inner ++ outer).length < room ↔ inner.length < room - outer.length := by
    rw [List.length_append]
    omega
  simp only [Reader.begin, left, apply_ite (around outer b)]
  rfl

theorem stepNumber_around (numeral : Numeral) (inner outer : List Frame) (b : UInt8) :
    Reader.stepNumber numeral (inner ++ outer) b =
      around outer b (Reader.stepNumber numeral inner b) := by
  unfold Reader.stepNumber
  cases numeral.step b with
  | more next => rfl
  | refused reason => rfl
  | ended =>
      cases numeral.value with
      | error reason => rfl
      | ok n =>
          rcases inner with _ | ⟨read | ⟨read, key⟩, inner⟩
          · rcases outer with _ | ⟨_ | _, outer⟩ <;> rfl
          · exact stepAfterItem_around _ inner outer b
          · exact stepAfterMember_around _ inner outer b

theorem stepQuoted_around {text : Quoted} {more more' : Quoted → Move} {closed closed' : String → Move}
    (hmore : ∀ next, more next = around outer b (more' next))
    (hclosed : ∀ s, closed s = around outer b (closed' s)) :
    Reader.stepQuoted text more closed b = around outer b (Reader.stepQuoted text more' closed' b) := by
  unfold Reader.stepQuoted
  split
  · exact hmore _
  · rfl
  · split
    · exact hclosed _
    · rfl

theorem step_around (room : Nat) (r : Reader) (outer : List Frame) (b : UInt8) :
    Reader.step room ⟨r.mode, r.stack ++ outer⟩ b = around outer b (r.step (room - outer.length) b) := by
  obtain ⟨mode, inner⟩ := r
  cases mode with
  | value | nextItem =>
      simp only [Reader.step]
      repeat' split
      all_goals first
        | rfl
        | exact begin_around room inner outer b
        | exact begin_around room (_ :: inner) outer b
  | firstItem =>
      simp only [Reader.step]
      split
      · rfl
      split
      · exact settle_around _ inner outer b
      · exact begin_around room (_ :: inner) outer b
  | afterItem read => exact stepAfterItem_around read inner outer b
  | firstKey =>
      simp only [Reader.step]
      repeat' split
      all_goals first
        | rfl
        | exact settle_around _ inner outer b
  | nextKey | colon =>
      simp only [Reader.step]
      repeat' split
      all_goals rfl
  | key read text => exact stepQuoted_around (fun _ => rfl) fun _ => rfl
  | afterMember read => exact stepAfterMember_around read inner outer b
  | literal due value =>
      rcases due with _ | ⟨first, _ | ⟨second, due⟩⟩
      · exact settle_around value inner outer b
      all_goals
        simp only [Reader.step]
        split
        · first
            | rfl
            | exact settle_around value inner outer b
        · rfl
  | number numeral => exact stepNumber_around numeral inner outer b
  | string text => exact stepQuoted_around (fun _ => rfl) fun s => settle_around _ inner outer b

theorem finish_around (r : Reader) (outer : List Frame) :
    Reader.run room ⟨r.mode, r.stack ++ outer⟩ [] = match r.finish with
      | .ok value => resume room value outer []
      | .error reason => .error ⟨reason, 0, 0⟩ := by
  obtain ⟨mode, inner⟩ := r
  cases mode with
  | number numeral =>
      simp only [Reader.run, Reader.finish]
      cases numeral.value with
      | error reason => rfl
      | ok n =>
          rcases inner with _ | ⟨_ | _, inner⟩
          · rcases outer with _ | ⟨_ | _, outer⟩ <;> rfl
          all_goals rfl
  | _ => rfl

theorem run_around (r : Reader) (outer : List Frame) (input : List UInt8) :
    Reader.run room ⟨r.mode, r.stack ++ outer⟩ input = match r.run (room - outer.length) input with
      | .ok (value, rest) => resume room value outer rest
      | .error fault => .error fault := by
  induction input generalizing r with
  | nil =>
      rw [finish_around, Reader.run]
      cases r.finish <;> rfl
  | cons b rest ih =>
      have step := step_around room r outer b
      rw [Reader.run.eq_2 _ r]
      cases moved : r.step (room - outer.length) b with
      | more next =>
          rw [moved] at step
          rw [run_more step]
          exact ih next
      | done value =>
          rw [moved] at step
          exact run_settle step
      | doneBefore value =>
          rw [moved] at step
          rw [Reader.run, step]
          rcases outer with _ | ⟨_ | _, outer⟩ <;> rfl
      | refused reason back => rw [Reader.run, step, moved]; rfl
      | refusedBefore reason => rw [Reader.run, step, moved]; rfl

theorem run_value (outer : List Frame) (input : List UInt8) :
    Reader.run room ⟨.value, outer⟩ input = match Json.read (room - outer.length) input with
      | .ok (value, rest) => resume room value outer rest
      | .error fault => .error fault :=
  run_around .start outer input

theorem run_value_ok : Reader.run room ⟨.value, outer⟩ input = .ok result ↔
    ∃ value left, Json.read (room - outer.length) input = .ok (value, left) ∧
      resume room value outer left = .ok result := by
  rw [run_value]
  cases Json.read (room - outer.length) input with
  | error fault => exact ⟨nofun, nofun⟩
  | ok found =>
      constructor
      · intro after
        exact ⟨found.1, found.2, rfl, after⟩
      · rintro ⟨_, _, same, after⟩
        cases same
        exact after

theorem skipBlanks_solid (h : skipBlanks input = b :: rest) : isBlank b = false := by
  have solid := List.head?_dropWhile_not isBlank input
  rw [← skipBlanks, h] at solid
  simpa using solid

theorem run_skip (stays : ∀ b, isBlank b → r.step room b = .more r) (input : List UInt8) :
    r.run room (skipBlanks input) = r.run room input := by
  have blank : ∀ b ∈ input.takeWhile isBlank, isBlank b := List.all_eq_true.1 List.all_takeWhile
  have split : input.takeWhile isBlank ++ skipBlanks input = input := List.takeWhile_append_dropWhile
  exact (run_blanks blank stays).symm.trans (congrArg (r.run room) split)

theorem read_skip (room : Nat) (input : List UInt8) :
    Json.read room (skipBlanks input) = Json.read room input :=
  run_skip (fun b blank => by simp [Reader.start, Reader.step, blank]) input

theorem read_nil (room : Nat) : Json.read room [] = .error ⟨.endInValue, 0, 0⟩ :=
  rfl

variable {wrap : Quoted → Reader} {closed : String → Move}

theorem run_gathered {after : String → List UInt8 → Except Fault (Json × List UInt8)}
    (gathers : Gathers room wrap closed) (unfinished : ∀ q, (wrap q).finish = .error .endInString)
    (goes : ∀ (r : Reader) b s rest, r.step room b = closed s → r.run room (b :: rest) = after s rest)
    (q : Quoted) (input : List UInt8) :
    (wrap q).run room input = match q.run input with
      | .ok (s, rest) => after s rest
      | .error fault => .error fault := by
  induction input generalizing q with
  | nil => rw [Reader.run, unfinished, Quoted.run]
  | cons b rest ih =>
      have step := gathers.step q b
      rw [Reader.stepQuoted] at step
      rw [Quoted.run]
      cases moved : q.step b with
      | more next =>
          rw [moved] at step
          rw [run_more step]
          exact ih next
      | refused reason =>
          rw [moved] at step
          rw [Reader.run, step]
      | closed content =>
          rw [moved] at step
          simp only at step ⊢
          cases text : Utf8.text? content with
          | none =>
              rw [text] at step
              rw [Reader.run, step]
          | some s =>
              rw [text] at step
              exact goes _ b s rest step

theorem run_text (q : Quoted) (stack : List Frame) (input : List UInt8) :
    Reader.run room ⟨.string q, stack⟩ input = match q.run input with
      | .ok (s, rest) => resume room (.string s) stack rest
      | .error fault => .error fault := by
  have gathers : Gathers room (fun q => ⟨.string q, stack⟩) fun s => Reader.settle (.string s) stack :=
    ⟨fun _ _ => rfl⟩
  exact run_gathered gathers (fun _ => rfl) (fun _ _ _ _ step => run_settle step) q input

theorem read_quote : Json.read room (quote :: input) = .ok (tree, rest) ↔
    ∃ s, tree = .string s ∧ Quoted.start.run input = .ok (s, rest) := by
  have begun : Json.read room (quote :: input) = Reader.run room ⟨.string .start, []⟩ input := run_more rfl
  rw [begun, run_text]
  cases Quoted.start.run input with
  | error fault => exact ⟨nofun, nofun⟩
  | ok quoted =>
      obtain ⟨s, left⟩ := quoted
      constructor
      · intro same
        cases same
        exact ⟨s, rfl, rfl⟩
      · rintro ⟨_, rfl, same⟩
        cases same
        rfl

theorem run_keyText (q : Quoted) (read : List (String × Json)) (stack : List Frame) (input : List UInt8) :
    Reader.run room ⟨.key read q, stack⟩ input = match q.run input with
      | .ok (key, rest) => Reader.run room ⟨.colon read key, stack⟩ rest
      | .error fault => .error fault := by
  have gathers : Gathers room (fun q => ⟨.key read q, stack⟩) fun key => .more ⟨.colon read key, stack⟩ :=
    ⟨fun _ _ => rfl⟩
  exact run_gathered gathers (fun _ => rfl) (fun _ _ _ _ step => run_more step) q input

theorem quoted_suffix {q : Quoted} (h : q.run input = .ok (key, rest)) : rest <:+ input := by
  induction input generalizing q with
  | nil => cases h
  | cons b input ih =>
      rw [Quoted.run] at h
      split at h
      · exact (ih h).trans (List.suffix_cons b input)
      · cases h
      · split at h
        · cases h
          exact List.suffix_cons b rest
        · cases h

theorem run_suffix (h : r.run room input = .ok (tree, rest)) : rest <:+ input := by
  induction input generalizing r with
  | nil =>
      rw [Reader.run] at h
      split at h
      · cases h
        exact List.suffix_rfl
      · cases h
  | cons b input ih =>
      rw [Reader.run] at h
      split at h
      · exact (ih h).trans (List.suffix_cons b input)
      · cases h
        exact List.suffix_cons b rest
      · cases h
        exact List.suffix_rfl
      · cases h
      · cases h

theorem skipBlanks_suffix (input : List UInt8) : skipBlanks input <:+ input :=
  List.dropWhile_suffix isBlank

theorem read_shorter (h : Json.read room input = .ok (tree, rest)) : rest.length < input.length := by
  rw [← read_skip] at h
  refine Nat.lt_of_lt_of_le ?_ (skipBlanks_suffix input).length_le
  cases skip : skipBlanks input with
  | nil => rw [skip] at h; cases h
  | cons b more =>
      rw [skip] at h
      have step : Reader.start.step room b = Reader.begin room [] b := by
        simp [Reader.step, Reader.start, skipBlanks_solid skip]
      have begins := begin_begins room [] b
      rw [Json.read, Reader.run, step] at h
      generalize Reader.begin room [] b = move at h begins
      cases begins with
      | refused notEnd => cases h
      | _ => exact Nat.lt_succ_of_le (run_suffix h).length_le

end SocketRpc.Proofs.Json
