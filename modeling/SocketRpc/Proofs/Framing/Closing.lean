import SocketRpc.Proofs.Framing.Gate
import SocketRpc.Proofs.Json.Grammar

/-!
# Which byte asks for an inspection

The boundary counts brackets and minds quotes, and knows nothing else of the grammar. This is enough: an
array, an object or a quoted text asks for an inspection with its last byte and with no byte before, however
deep it nests and however it is cut into chunks.

* `Quiet` is a text that leaves the boundary as it was and asks for nothing.
* `quiet_derives`: inside a bracket every part of a text is quiet, by induction on its derivation.
* `value_closes` is what follows for a whole value, and `last_byte_asks` for a value in chunks.
-/

namespace SocketRpc.Proofs.Framing
open SocketRpc.Json SocketRpc.Framing SocketRpc.Proofs.Json SocketRpc.Proofs.Json.Grammar Ascii

variable {s inside : Boundary} {b first opener closer : UInt8} {text rest more inner content : List UInt8}
variable {part : Part} {chunks : List (List UInt8)} {depth : Nat}

/-- The text leaves the boundary as it was, and none of its bytes asks for an inspection. -/
def Quiet (s : Boundary) (text : List UInt8) : Prop := s.feed text = (s, false)

theorem quiet_append (first : Quiet s text) (second : Quiet s rest) : Quiet s (text ++ rest) := by
  rw [Quiet, feed_append, first, second]
  rfl

theorem quiet_cons (stays : s.step b = (s, false)) (quiet : Quiet s rest) : Quiet s (b :: rest) := by
  rw [Quiet, feed_cons, stays, quiet]
  rfl

theorem quiet_plain (plain : ∀ b ∈ text, isStructural b = false) : Quiet ⟨depth + 1, false, false⟩ text := by
  induction text with
  | nil => rfl
  | cons b text ih =>
      obtain ⟨here, later⟩ := List.forall_mem_cons.1 plain
      exact quiet_cons (step_plain (depth + 1) here) (ih later)

theorem feed_enclosed (opens : s.step opener = (inside, false)) (quiet : Quiet inside inner) :
    s.feed (opener :: (inner ++ [closer])) = inside.step closer := by
  rw [feed_cons, opens, feed_append, quiet, feed_cons]
  simp [Boundary.feed]

theorem step_inside (ordinary : b ≠ quote ∧ b ≠ backslash) :
    (⟨depth, true, false⟩ : Boundary).step b = (⟨depth, true, false⟩, false) := by
  simp [Boundary.step, ordinary]

theorem quiet_escape (letter : UInt8) (quiet : Quiet ⟨depth, true, false⟩ rest) :
    Quiet ⟨depth, true, false⟩ (backslash :: letter :: rest) := by
  have escapes : (⟨depth, true, false⟩ : Boundary).step backslash = (⟨depth, true, true⟩, false) := rfl
  have escaped : (⟨depth, true, true⟩ : Boundary).step letter = (⟨depth, true, false⟩, false) := rfl
  rw [Quiet, feed_cons, escapes, feed_cons, escaped, quiet]
  rfl

theorem quiet_hex (hex : ∀ d ∈ text, hexDigit? d ≠ none) : Quiet ⟨depth, true, false⟩ text := by
  induction text with
  | nil => rfl
  | cons d text ih =>
      obtain ⟨here, later⟩ := List.forall_mem_cons.1 hex
      exact quiet_cons (step_inside (hexDigit_plain here)) (ih later)

theorem quiet_characters (characters : Characters content) : Quiet ⟨depth, true, false⟩ content := by
  induction characters with
  | nothing => rfl
  | plain visible ordinary more ih => exact quiet_cons (step_inside ordinary) ih
  | escape known more ih => exact quiet_escape _ ih
  | codeUnit four hex more ih => exact quiet_escape _ (quiet_append (quiet_hex hex) ih)

theorem quiet_quoted (characters : Characters content) : Quiet ⟨depth + 1, false, false⟩ (quoted content) :=
  feed_enclosed rfl (quiet_characters characters)

theorem quiet_blanks (blank : Blanks text) : Quiet ⟨depth + 1, false, false⟩ text :=
  quiet_plain fun b member => blank_plain (blank b member)

theorem quiet_derives (derives : Derives part text) : ∀ depth, Quiet ⟨depth + 1, false, false⟩ text := by
  induction derives with
  | word word => exact fun _ => quiet_plain fun b member => letter_plain (word_letters word b member)
  | number number => exact fun _ => quiet_plain fun b member => numeric_plain (number_numeric number b member)
  | string characters => exact fun _ => quiet_quoted characters
  | emptyArray blank => exact fun _ => feed_enclosed rfl (quiet_blanks blank)
  | array _ ih => exact fun depth => feed_enclosed rfl (ih (depth + 1))
  | emptyObject blank => exact fun _ => feed_enclosed rfl (quiet_blanks blank)
  | object _ ih => exact fun depth => feed_enclosed rfl (ih (depth + 1))
  | element blank _ blank' ih =>
      exact fun depth => quiet_append (quiet_blanks blank) (quiet_append (ih depth) (quiet_blanks blank'))
  | lastElement _ ih => exact ih
  | moreElements _ _ ih ih' =>
      exact fun depth => quiet_append (ih depth) (quiet_cons (step_plain _ rfl) (ih' depth))
  | member blank characters blank' _ ih =>
      intro depth
      have value := quiet_cons (b := colon) (step_plain (depth + 1) rfl) (ih depth)
      exact quiet_append (quiet_blanks blank)
        (quiet_append (quiet_quoted characters) (quiet_append (quiet_blanks blank') value))
  | lastMember _ ih => exact ih
  | moreMembers _ _ ih ih' =>
      exact fun depth => quiet_append (ih depth) (quiet_cons (step_plain _ rfl) (ih' depth))

theorem value_closes (derives : Derives .value (first :: more)) (opens : Opens first) :
    ∃ inside inner closer, more = inner ++ [closer] ∧ Boundary.start.step first = (inside, false) ∧
      Quiet inside inner ∧ inside.step closer = (.start, true) := by
  cases derives with
  | word word =>
      have letter := word_letters word first List.mem_cons_self
      cases (opening_of_opens opens).1.symm.trans (isOpening_letter letter)
  | number number =>
      have numeric := number_numeric number first List.mem_cons_self
      cases (opening_of_opens opens).1.symm.trans (isOpening_numeric numeric)
  | string characters => exact ⟨_, _, _, rfl, rfl, quiet_characters characters, rfl⟩
  | emptyArray blank => exact ⟨_, _, _, rfl, rfl, quiet_blanks blank, rfl⟩
  | array elements => exact ⟨_, _, _, rfl, rfl, quiet_derives elements 0, rfl⟩
  | emptyObject blank => exact ⟨_, _, _, rfl, rfl, quiet_blanks blank, rfl⟩
  | object members => exact ⟨_, _, _, rfl, rfl, quiet_derives members 0, rfl⟩

def feedAll (s : Boundary) : List (List UInt8) → Boundary × List Bool
  | [] => (s, [])
  | chunk :: rest =>
      let (next, answer) := s.feed chunk
      let (last, answers) := feedAll next rest
      (last, answer :: answers)

theorem feedAll_state (s : Boundary) (chunks : List (List UInt8)) :
    (feedAll s chunks).1 = (s.feed chunks.flatten).1 := by
  induction chunks generalizing s with
  | nil => rfl
  | cons chunk chunks ih =>
      rw [List.flatten_cons, feed_append]
      exact ih (s.feed chunk).1

theorem feedAll_quiet (quiet : (s.feed chunks.flatten).2 = false) :
    (feedAll s chunks).2 = List.replicate chunks.length false := by
  induction chunks generalizing s with
  | nil => rfl
  | cons chunk chunks ih =>
      rw [List.flatten_cons, feed_append, Bool.or_eq_false_iff] at quiet
      show (s.feed chunk).2 :: (feedAll (s.feed chunk).1 chunks).2 = _
      rw [quiet.1, ih quiet.2]
      rfl

theorem feedAll_concat (s : Boundary) (chunks : List (List UInt8)) (chunk : List UInt8) :
    (feedAll s (chunks ++ [chunk])).2 =
      (feedAll s chunks).2 ++ [((s.feed chunks.flatten).1.feed chunk).2] := by
  induction chunks generalizing s with
  | nil => rfl
  | cons c chunks ih =>
      show (s.feed c).2 :: (feedAll (s.feed c).1 (chunks ++ [chunk])).2 = _
      rw [ih, List.flatten_cons, feed_append]
      rfl

theorem chunk_of_byte (split : chunks.flatten = text ++ b :: rest) :
    ∃ before mid late after, chunks = before ++ (mid ++ b :: late) :: after ∧ before.flatten ++ mid = text := by
  induction chunks generalizing text with
  | nil => simp at split
  | cons chunk chunks ih =>
      rcases append_split split with ⟨text, rfl, later⟩ | ⟨late, rfl, -⟩
      · obtain ⟨before, mid, late, after, rfl, rfl⟩ := ih later
        exact ⟨chunk :: before, mid, late, after, rfl, by simp⟩
      · exact ⟨[], text, late, chunks, rfl, rfl⟩

theorem value_quiet (opening : Boundary.start.step first = (inside, false)) (quiet : Quiet inside inner)
    (closing : inside.step closer = (.start, true)) (early : text ++ more = first :: inner) :
    (Boundary.start.feed text).2 = false ∧
      ∀ late, ((Boundary.start.feed text).1.feed (more ++ closer :: late)).2 = true := by
  have opened : Boundary.start.feed (text ++ more) = (inside, false) := by
    rw [early, feed_cons, opening, quiet]
    rfl
  rw [feed_append, Prod.mk.injEq, Bool.or_eq_false_iff] at opened
  obtain ⟨reaches, quiet, -⟩ := opened
  refine ⟨quiet, fun late => ?_⟩
  rw [feed_append, reaches, feed_cons, closing]
  simp

/-- However an array, an object or a quoted text is cut into chunks, and whatever follows it, no chunk asks for
an inspection before the one with its last byte, and this one does. The text itself leaves the boundary as
it was at first. -/
theorem last_byte_asks (derives : Derives .value (first :: more)) (opens : Opens first)
    (split : chunks.flatten = first :: more ++ rest) :
    (∃ before chunk after, chunks = before ++ chunk :: after ∧
      before.flatten.length < (first :: more).length ∧
      (first :: more).length ≤ (before ++ [chunk]).flatten.length ∧
      (feedAll .start (before ++ [chunk])).2 = List.replicate before.length false ++ [true]) ∧
    (rest = [] → (feedAll .start chunks).1 = ⟨0, false, false⟩) := by
  obtain ⟨inside, inner, closer, rfl, opening, quiet, closing⟩ := value_closes derives opens
  refine ⟨?_, fun nothing => ?_⟩
  · have split : chunks.flatten = (first :: inner) ++ closer :: rest := by simpa using split
    obtain ⟨before, mid, late, after, rfl, early⟩ := chunk_of_byte split
    obtain ⟨silent, fires⟩ := value_quiet opening quiet closing early
    have size := congrArg List.length early
    simp only [List.length_append, List.length_cons] at size
    refine ⟨before, mid ++ closer :: late, after, rfl, ?_, ?_, ?_⟩
    · simp only [List.length_cons, List.length_append]
      omega
    · simp only [List.flatten_append, List.flatten_singleton, List.length_append, List.length_cons,
        List.length_nil]
      omega
    · rw [feedAll_concat, feedAll_quiet silent, fires]
  · have whole : Boundary.start.feed (first :: (inner ++ [closer])) = (.start, true) :=
      (feed_enclosed opening quiet).trans closing
    rw [feedAll_state, split, nothing, List.append_nil, whole]
    rfl

theorem half_pair_closes :
    let text := "[\"\\\"\\ud800\"]".toList.map byte
    let chunks := ["[\"\\", "\"\\ud8", "00\"]"].map fun chunk => chunk.toList.map byte
    Derives .value text ∧ scan text = .invalid ∧
      (∃ before chunk after, chunks = before ++ chunk :: after ∧ before.flatten.length < text.length ∧
        text.length ≤ (before ++ [chunk]).flatten.length ∧
        (feedAll .start (before ++ [chunk])).2 = List.replicate before.length false ++ [true]) ∧
      (feedAll .start chunks).1 = ⟨0, false, false⟩ := by
  intro text chunks
  have unit : Characters ("\\ud800".toList.map byte) :=
    @Characters.codeUnit ("d800".toList.map byte) [] rfl (by decide +kernel) .nothing
  have characters : Characters ("\\\"\\ud800".toList.map byte) := .escape (by decide +kernel) unit
  have element : Derives .element (quoted ("\\\"\\ud800".toList.map byte)) :=
    @Derives.element [] _ [] nofun (.string characters) nofun
  have derives : Derives .value text := .array (.lastElement element)
  have split : chunks.flatten = text ++ [] := rfl
  obtain ⟨asks, closes⟩ := last_byte_asks derives (.inl rfl) split
  exact ⟨derives, rfl, asks, closes rfl⟩

end SocketRpc.Proofs.Framing
