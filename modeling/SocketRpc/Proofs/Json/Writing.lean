import SocketRpc.Proofs.Json.Canonical
import SocketRpc.Proofs.Json.Spelling

namespace SocketRpc.Proofs.Json
open SocketRpc.Json Ascii

mutual

def Integral : Json → Prop
  | .number (.double _) => False
  | .array items => IntegralItems items
  | .object members => IntegralMembers members
  | .null | .bool _ | .number (.integer ..) | .string _ => True

def IntegralItems : List Json → Prop
  | [] => True
  | item :: rest => Integral item ∧ IntegralItems rest

def IntegralMembers : List (String × Json) → Prop
  | [] => True
  | (_, value) :: rest => Integral value ∧ IntegralMembers rest

end

theorem integralMembers_iff {members : List (String × Json)} :
    IntegralMembers members ↔ ∀ m ∈ members, Integral m.2 := by
  induction members with
  | nil => exact ⟨nofun, fun _ => trivial⟩
  | cons member members ih => rw [IntegralMembers, ih, List.forall_mem_cons]

mutual

theorem spells_write : ∀ tree, Integral tree → Spells (write tree) tree
  | .null, _ => spells_word .null
  | .bool true, _ => spells_word .true
  | .bool false, _ => spells_word .false
  | .number (.integer value fits), _ => spells_integer value fits
  | .string s, _ => spells_string s
  | .array [], _ => spells_empty_array
  | .array (item :: rest), h =>
      spells_array [] nofun (spells_write item h.1) (spells_moreItems rest h.2)
  | .object [], _ => spells_empty_object
  | .object ((key, value) :: rest), h =>
      spells_object key [] [] nofun nofun (spells_write value h.1) (spells_moreMembers rest h.2)

theorem spells_moreItems : ∀ items, IntegralItems items → SpellsItems (writeMoreItems items) items
  | [], _ => spellsItems_nil [] nofun
  | item :: rest, h =>
      spellsItems_cons [] nofun (spells_write item h.1) (spells_moreItems rest h.2)

theorem spells_moreMembers : ∀ members, IntegralMembers members →
    SpellsMembers (writeMoreMembers members) members
  | [], _ => spellsMembers_nil [] nofun
  | (key, value) :: rest, h =>
      spellsMembers_cons key [] [] nofun nofun (spells_write value h.1) (spells_moreMembers rest h.2)

end

theorem read_write {room : Nat} {tree : Json} (integral : Integral tree) (shallow : tree.depth ≤ room) :
    Json.read room tree.write = .ok (tree, []) := by
  have reads := (spells_write tree integral).reads room [] [] shallow nofun
  rw [List.append_nil] at reads
  exact reads

theorem newLine_blank (level : Nat) : ∀ b ∈ newLine level, isBlank b := by
  intro b hb
  rcases List.mem_cons.1 hb with rfl | hb
  · decide
  · rw [List.eq_of_mem_replicate hb]
    decide

theorem space_blank : ∀ b ∈ [space], isBlank b :=
  List.all_eq_true.1 rfl

mutual

theorem spells_writePretty : ∀ tree level, Integral tree → Spells (writePretty level tree) tree
  | .null, _, _ => spells_word .null
  | .bool true, _, _ => spells_word .true
  | .bool false, _, _ => spells_word .false
  | .number (.integer value fits), _, _ => spells_integer value fits
  | .string s, _, _ => spells_string s
  | .array [], _, _ => spells_empty_array
  | .array (item :: rest), level, h =>
      spells_array (newLine (level + 1)) (newLine_blank _) (spells_writePretty item _ h.1)
        (spells_prettyMoreItems rest level h.2)
  | .object [], _, _ => spells_empty_object
  | .object ((key, value) :: rest), level, h =>
      spells_object key (newLine (level + 1)) [space] (newLine_blank _) space_blank
        (spells_writePretty value _ h.1) (spells_prettyMoreMembers rest level h.2)

theorem spells_prettyMoreItems : ∀ items level, IntegralItems items →
    SpellsItems (prettyMoreItems level items) items
  | [], level, _ => spellsItems_nil (newLine level) (newLine_blank _)
  | item :: rest, level, h =>
      spellsItems_cons (newLine (level + 1)) (newLine_blank _) (spells_writePretty item _ h.1)
        (spells_prettyMoreItems rest level h.2)

theorem spells_prettyMoreMembers : ∀ members level, IntegralMembers members →
    SpellsMembers (prettyMoreMembers level members) members
  | [], level, _ => spellsMembers_nil (newLine level) (newLine_blank _)
  | (key, value) :: rest, level, h =>
      spellsMembers_cons key (newLine (level + 1)) [space] (newLine_blank _) space_blank
        (spells_writePretty value _ h.1) (spells_prettyMoreMembers rest level h.2)

end

theorem spells_pretty (tree : Json) (h : Integral tree) : Spells (pretty tree) tree :=
  spells_writePretty tree 0 h

end SocketRpc.Proofs.Json
