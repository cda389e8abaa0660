import SocketRpc.Proofs.Decoding.FirstByte
import SocketRpc.Proofs.Json.Canonical

/-!
# The two ways of a decoder

A decoder reads a text directly, and it reads the value that has been made of a text.

* `Agrees` says that both ways read the same, unless an object repeats a key.
* There is a lemma for each building block.
* `decode_iff`: a whole input decodes to what its value converts to.
-/

namespace SocketRpc.Proofs.Decoding
open SocketRpc.Json SocketRpc.Proofs.Json Ascii

variable {α β : Type} {d : Decoder α} {x : α} {room : Nat} {b : UInt8} {input rest : List UInt8} {tree : Json}

/-- Both ways of a decoder read the same. From a text it reads what it makes of the tree that the text
holds, and of the canonical form of a tree it makes what it makes of the tree. -/
structure Agrees (d : Decoder α) : Prop where
  reads : ∀ room input x rest, d.ofText room input = .ok (x, rest) ↔
    ∃ tree, Json.read room input = .ok (tree, rest) ∧ d.ofTree tree = .ok x
  settles : ∀ tree, Distinct tree → ∀ x, d.ofTree tree.canonical = .ok x ↔ d.ofTree tree = .ok x

theorem map_ok {ε : Type} {f : α → β} {made : Except ε α} {y : β} :
    made.map f = .ok y ↔ ∃ x, made = .ok x ∧ f x = y := by
  cases made with
  | error reason => exact ⟨nofun, nofun⟩
  | ok x => simp [Except.map]

theorem bind_ok {ε : Type} {made : Except ε α} {f : α → Except ε β} {y : β} :
    (made >>= f) = .ok y ↔ ∃ x, made = .ok x ∧ f x = .ok y := by
  cases made with
  | error reason => exact ⟨nofun, nofun⟩
  | ok x => exact ⟨fun h => ⟨x, rfl, h⟩, fun ⟨_, same, h⟩ => by cases same; exact h⟩

theorem bind_error {ε : Type} {made : Except ε α} {f : α → Except ε β} {e : ε} :
    (made >>= f) = .error e ↔ made = .error e ∨ ∃ x, made = .ok x ∧ f x = .error e := by
  cases made with
  | error reason => simp [bind, Except.bind]
  | ok x => simp [bind, Except.bind]

def Unrepeated (input : List UInt8) : Prop :=
  ∀ tree rest, Json.read Json.maxDepth input = .ok (tree, rest) → Distinct tree

theorem decode_ok : d.decode input = .ok x ↔
    ∃ rest, d.ofText Json.maxDepth input = .ok (x, rest) ∧ Json.trailing? rest = none := by
  unfold Decoder.decode
  split
  · next error => simp [error]
  · next y rest read =>
      simp only [read, Except.ok.injEq, Prod.mk.injEq]
      split
      · next trailing =>
          refine ⟨nofun, ?_⟩
          rintro ⟨_, ⟨rfl, rfl⟩, none⟩
          cases trailing.symm.trans none
      · next none =>
          constructor
          · rintro ⟨rfl⟩
            exact ⟨rest, ⟨rfl, rfl⟩, none⟩
          · rintro ⟨_, ⟨rfl, rfl⟩, -⟩
            rfl

theorem parse_ok {value : Json} : Json.parse input = .ok value ↔
    ∃ tree rest, Json.read Json.maxDepth input = .ok (tree, rest) ∧ Json.trailing? rest = none ∧
      value = tree.canonical := by
  unfold Json.parse
  split
  · next error => simp [error]
  · next tree rest read =>
      simp only [read, Except.ok.injEq, Prod.mk.injEq]
      split
      · next trailing =>
          refine ⟨nofun, ?_⟩
          rintro ⟨_, _, ⟨rfl, rfl⟩, none, -⟩
          cases trailing.symm.trans none
      · next none =>
          constructor
          · rintro ⟨rfl⟩
            exact ⟨tree, rest, ⟨rfl, rfl⟩, none, rfl⟩
          · rintro ⟨_, _, ⟨rfl, rfl⟩, -, rfl⟩
            rfl

theorem convert_ok {value : Json} : d.convert value = .ok x ↔ d.ofTree value = .ok x := by
  unfold Decoder.convert
  split
  · next same => simp [same]
  · next error => simp [error]

theorem decode_iff (agrees : Agrees d) (distinct : Unrepeated input) (x : α) :
    d.decode input = .ok x ↔ ∃ value, Json.parse input = .ok value ∧ d.convert value = .ok x := by
  rw [decode_ok]
  constructor
  · rintro ⟨rest, direct, ends⟩
    obtain ⟨tree, read, made⟩ := (agrees.reads _ _ _ _).1 direct
    refine ⟨tree.canonical, parse_ok.2 ⟨tree, rest, read, ends, rfl⟩, convert_ok.2 ?_⟩
    exact (agrees.settles tree (distinct tree rest read) x).2 made
  · rintro ⟨value, parsed, converted⟩
    obtain ⟨tree, rest, read, ends, rfl⟩ := parse_ok.1 parsed
    have made := (agrees.settles tree (distinct tree rest read) x).1 (convert_ok.1 converted)
    exact ⟨rest, (agrees.reads _ _ _ _).2 ⟨tree, read, made⟩, ends⟩

theorem map_ofTree {f : α → β} {y : β} :
    (d.map f).ofTree tree = .ok y ↔ ∃ x, d.ofTree tree = .ok x ∧ f x = y :=
  map_ok

theorem agrees_map (f : α → β) (agrees : Agrees d) : Agrees (d.map f) where
  reads room input y rest := by
    simp only [Decoder.map, map_ok, Prod.mk.injEq, Prod.exists, agrees.reads]
    constructor
    · rintro ⟨x, _, ⟨tree, read, made⟩, rfl, rfl⟩
      exact ⟨tree, read, x, made, rfl⟩
    · rintro ⟨tree, read, x, made, rfl⟩
      exact ⟨x, rest, ⟨tree, read, made⟩, rfl, rfl⟩
  settles tree distinct y := by
    simp only [Decoder.map, map_ok, agrees.settles tree distinct]

theorem readTree_ok {result : Json × List UInt8} :
    Decoder.readTree room input = .ok result ↔ Json.read room input = .ok result := by
  unfold Decoder.readTree
  split
  · next same => simp [same]
  · next error => simp [error]

theorem agrees_value : Agrees Decoder.value where
  reads room input value rest := by
    simp only [Decoder.value, map_ok, Prod.mk.injEq, Prod.exists, readTree_ok]
    constructor
    · rintro ⟨tree, _, read, rfl, rfl⟩
      exact ⟨tree, read, rfl⟩
    · rintro ⟨tree, read, same⟩
      cases same
      exact ⟨tree, rest, read, rfl, rfl⟩
  settles tree distinct value := by
    simp only [Decoder.value, canonical_canonical]

theorem readTree_then {make : Json → List UInt8 → Except DecodeFault (α × List UInt8)} {made : Json → Prop}
    (h : ∀ tree left, make tree left = .ok (x, rest) ↔ left = rest ∧ made tree) :
    (match Decoder.readTree room input with
      | .error fault => Except.error fault
      | .ok (tree, left) => make tree left) = .ok (x, rest) ↔
      ∃ tree, Json.read room input = .ok (tree, rest) ∧ made tree := by
  simp only [← readTree_ok]
  cases Decoder.readTree room input with
  | error fault => exact ⟨nofun, nofun⟩
  | ok result =>
      obtain ⟨tree, left⟩ := result
      refine (h tree left).trans ?_
      constructor
      · rintro ⟨rfl, holds⟩
        exact ⟨tree, rfl, holds⟩
      · rintro ⟨_, same, holds⟩
        cases same
        exact ⟨rfl, holds⟩

theorem agrees_whole (type : String) {accept : Json → Option α}
    (settles : ∀ tree, Distinct tree → ∀ x, accept tree.canonical = some x ↔ accept tree = some x) :
    Agrees (.whole type accept) := by
  have made (tree : Json) (x : α) :
      (Decoder.whole type accept).ofTree tree = .ok x ↔ accept tree = some x := by
    simp only [Decoder.whole]
    cases accept tree <;> simp
  constructor
  · intro room input x rest
    simp only [made]
    refine readTree_then fun tree left => ?_
    cases accept tree <;> simp [and_comm]
  · intro tree distinct x
    simp only [made, settles tree distinct]

theorem agrees_scalar (expected : String) {accept : Json → Except DataError α}
    (flat : ∀ tree x, accept tree = .ok x → tree.depth = 0) : Agrees (.scalar expected accept) where
  reads room input x rest := by
    rw [← read_skip]
    simp only [Decoder.scalar]
    cases skip : skipBlanks input with
    | nil => simp [read_nil]
    | cons b more =>
        by_cases opens : b = openBracket ∨ b = openBrace
        · have deep {tree : Json} (read : Json.read room (b :: more) = .ok (tree, rest)) :
              tree.depth ≠ 0 := by
            have told := firstByte_of_read (skipBlanks_solid skip) read
            rcases opens with opens | opens
            · obtain ⟨items, rfl⟩ := told.array.1 opens
              nofun
            · obtain ⟨members, rfl⟩ := told.object.1 opens
              nofun
          have opening : (b == openBracket || b == openBrace) = true := by simpa using opens
          simp only [opening, if_true]
          refine ⟨nofun, ?_⟩
          rintro ⟨tree, read, made⟩
          exact absurd (flat tree x made) (deep read)
        · have opening : (b == openBracket || b == openBrace) = false := by simpa using opens
          simp only [opening, Bool.false_eq_true, if_false]
          refine readTree_then fun tree left => ?_
          cases accept tree <;> simp [and_comm]
  settles tree distinct x := by
    have same (h : tree.depth = 0) : tree.canonical = tree := by
      cases tree with
      | array | object => cases h
      | _ => rfl
    have deep : tree.canonical.depth = 0 → tree.depth = 0 := by
      cases tree with
      | array | object => nofun
      | _ => exact id
    constructor
    · intro made
      exact same (deep (flat _ _ made)) ▸ made
    · intro made
      exact (same (flat _ _ made)).symm ▸ made

theorem agrees_string : Agrees Decoder.string :=
  agrees_scalar "a string" fun tree x made => by
    cases tree with
    | string => rfl
    | _ => cases made

theorem agrees_int64 : Agrees Decoder.int64 :=
  agrees_scalar "i64" fun tree x made => by
    cases tree with
    | number => rfl
    | _ => cases made

theorem agrees_unit : Agrees Decoder.unit :=
  agrees_scalar "unit" fun tree x made => by
    cases tree with
    | null => rfl
    | _ => cases made

theorem optional_ofTree (present : tree ≠ .null) : d.optional.ofTree tree = (d.ofTree tree).map some := by
  cases tree with
  | null => exact absurd rfl present
  | _ => rfl

theorem agrees_optional (agrees : Agrees d) : Agrees d.optional where
  reads room input x rest := by
    rw [← read_skip]
    simp only [Decoder.optional]
    cases skip : skipBlanks input with
    | nil => simp [read_nil]
    | cons b more =>
        have told {tree : Json} (read : Json.read room (b :: more) = .ok (tree, rest)) :
            b = byte 'n' ↔ tree = .null := (firstByte_of_read (skipBlanks_solid skip) read).null
        by_cases absent : b = byte 'n'
        · subst absent
          simp only [beq_self_eq_true, if_true, map_ok, Prod.mk.injEq, Prod.exists, readTree_ok]
          constructor
          · rintro ⟨tree, _, read, rfl, rfl⟩
            obtain rfl := (told read).1 rfl
            exact ⟨.null, read, rfl⟩
          · rintro ⟨tree, read, made⟩
            obtain rfl := (told read).1 rfl
            cases made
            exact ⟨.null, rest, read, rfl, rfl⟩
        · simp only [beq_eq_false_iff_ne.2 absent, Bool.false_eq_true, if_false, map_ok, Prod.mk.injEq,
            Prod.exists, agrees.reads]
          constructor
          · rintro ⟨y, _, ⟨tree, read, made⟩, rfl, rfl⟩
            have present : tree ≠ .null := fun null => absent ((told read).2 null)
            exact ⟨tree, read, (optional_ofTree present).trans (map_ok.2 ⟨y, made, rfl⟩)⟩
          · rintro ⟨tree, read, made⟩
            have present : tree ≠ .null := fun null => absent ((told read).2 null)
            obtain ⟨y, made, same⟩ := map_ok.1 ((optional_ofTree present).symm.trans made)
            exact ⟨y, rest, ⟨tree, read, made⟩, same, rfl⟩
  settles tree distinct x := by
    by_cases absent : tree = .null
    · subst absent
      exact .rfl
    · have present : tree.canonical ≠ .null := by
        cases tree with
        | null => exact absurd rfl absent
        | _ => nofun
      simp only [optional_ofTree absent, optional_ofTree present, map_ok, agrees.settles tree distinct]

end SocketRpc.Proofs.Decoding
