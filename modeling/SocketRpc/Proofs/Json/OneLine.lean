import SocketRpc.Json.Writer

namespace SocketRpc.Proofs.Json
open SocketRpc.Json Ascii

variable {text more : List UInt8} {b : UInt8} {s t : String}

def Visible (text : List UInt8) : Prop := ∀ b ∈ text, space ≤ b

instance : Decidable (Visible text) := List.decidableBAll (space ≤ ·) text

theorem visible_nil : Visible [] :=
  List.forall_mem_nil _

theorem visible_cons : Visible (b :: text) ↔ space ≤ b ∧ Visible text :=
  List.forall_mem_cons

theorem visible_append : Visible (text ++ more) ↔ Visible text ∧ Visible more :=
  List.forall_mem_append

theorem visible_hexDigit : ∀ n < 16, space ≤ hexDigit n := by
  decide

theorem visible_writeByte (b : UInt8) : Visible (writeByte b) := by
  unfold writeByte
  iterate 7
    split
    · decide
  split
  · next control =>
      have high := visible_hexDigit (b.toNat / 16) (by have := b.toNat_lt; omega)
      have low := visible_hexDigit (b.toNat % 16) (Nat.mod_lt _ (by decide))
      simp [Visible, high, low]
  · next above => exact fun c same => List.eq_of_mem_singleton same ▸ UInt8.not_lt.1 above

theorem visible_writeString (s : String) : Visible (writeString s) := by
  have inside : Visible ((Utf8.bytes s).flatMap writeByte) := by
    intro c member
    obtain ⟨b, -, written⟩ := List.mem_flatMap.1 member
    exact visible_writeByte b c written
  exact visible_cons.2 ⟨by decide, visible_append.2 ⟨inside, by decide⟩⟩

theorem visible_decimal (n : Nat) : Visible (decimal n) := by
  have digit : ∀ d < 10, space ≤ 0x30 + d.toUInt8 := by decide
  induction n using decimal.induct with
  | case1 n small =>
      rw [decimal, if_pos small]
      exact visible_cons.2 ⟨digit n small, visible_nil⟩
  | case2 n large ih =>
      rw [decimal, if_neg large]
      exact visible_append.2 ⟨ih, visible_cons.2 ⟨digit _ (Nat.mod_lt n (by decide)), visible_nil⟩⟩

theorem visible_writeInteger (value : Int) : Visible (writeInteger value) := by
  unfold writeInteger
  split
  · exact visible_cons.2 ⟨by decide, visible_decimal _⟩
  · exact visible_decimal _

def VisibleText (s : String) : Prop := ∀ c ∈ s.toList, 32 ≤ c.toNat

instance : Decidable (VisibleText s) := List.decidableBAll (fun c : Char => 32 ≤ c.toNat) s.toList

theorem visible_utf8 {c : Char} (h : 32 ≤ c.toNat) : Visible (String.utf8EncodeChar c) := by
  have byte {n : Nat} (least : 32 ≤ n) (most : n < 256) : space ≤ UInt8.ofNat n := by
    rw [UInt8.le_iff_toNat_le, UInt8.toNat_ofNat_of_lt' most]
    exact least
  have above : 32 ≤ c.val.toNat := h
  -- Each byte of a longer code is marked by its leading bits.
  simp only [String.utf8EncodeChar]
  repeat' split
  all_goals
    simp only [visible_cons, visible_nil, and_true]
    repeat' apply And.intro
    all_goals exact byte (by omega) (by omega)

theorem bytes_encoded (s : String) : Utf8.bytes s = s.toList.flatMap String.utf8EncodeChar := by
  rw [Utf8.bytes, ← String.utf8Encode_toList, List.utf8Encode, List.toList_data_toByteArray]

theorem visible_bytes (h : VisibleText s) : Visible (Utf8.bytes s) := by
  intro b member
  rw [bytes_encoded] at member
  obtain ⟨c, present, coded⟩ := List.mem_flatMap.1 member
  exact visible_utf8 (h c present) b coded

theorem visibleText_append (hs : VisibleText s) (ht : VisibleText t) : VisibleText (s ++ t) := by
  rw [VisibleText, String.toList_append]
  exact List.forall_mem_append.2 ⟨hs, ht⟩

theorem visibleText_ofList {chars : List Char} (h : ∀ c ∈ chars, 32 ≤ c.toNat) :
    VisibleText (String.ofList chars) := by
  rwa [VisibleText, String.toList_ofList]

theorem visibleText_digits (n : Nat) : VisibleText (toString n) := by
  intro c member
  rw [Nat.toString_eq_repr, Nat.toList_repr] at member
  have digit := Nat.isDigit_of_mem_toDigits (by decide) (by decide) member
  simp only [Char.isDigit, Bool.and_eq_true, decide_eq_true_eq] at digit
  exact Nat.le_trans (by decide) (UInt32.le_iff_toNat_le.1 digit.1)

theorem visibleText_zeros (n : Nat) : VisibleText (Binary64.zeros n) := by
  refine visibleText_ofList fun c member => ?_
  rw [List.eq_of_mem_replicate member]
  decide

theorem visibleText_decimal (d : Binary64.Decimal) : VisibleText d.text := by
  have digits := visibleText_digits d.digits
  have within {part : List Char} (sub : part ⊆ (toString d.digits).toList) : VisibleText (String.ofList part) :=
    visibleText_ofList fun c member => digits c (sub member)
  have all := within (List.Subset.refl _)
  have front (n : Nat) := within (List.take_subset n _)
  have back (n : Nat) := within (List.drop_subset n _)
  simp only [Binary64.Decimal.text]
  split
  · split
    · exact visibleText_append (visibleText_append all (visibleText_zeros _)) (by decide)
    · exact visibleText_append (visibleText_append (front _) (by decide)) (back _)
  split
  · exact visibleText_append (visibleText_append (by decide) (visibleText_zeros _)) all
  · have fraction : VisibleText (if (toString d.digits).toList.length = 1 then "" else
        "." ++ String.ofList ((toString d.digits).toList.drop 1)) := by
      split
      · decide
      · exact visibleText_append (by decide) (back 1)
    refine visibleText_append (visibleText_append (visibleText_append (visibleText_append (front 1) fraction)
      (by decide)) ?_) (visibleText_digits _)
    split <;> decide

theorem visibleText_double (x : Binary64) : VisibleText x.text := by
  unfold Binary64.text
  refine visibleText_append ?_ ?_
  · split <;> decide
  · split
    · decide
    · exact visibleText_decimal _

mutual

theorem visible_write : ∀ tree : Json, Visible tree.write
  | .null | .bool true | .bool false => by decide
  | .number (.integer value _) => visible_writeInteger value
  | .number (.double x) => visible_bytes (visibleText_double x)
  | .string s => visible_writeString s
  | .array [] | .object [] => by decide
  | .array (item :: rest) =>
      visible_cons.2 ⟨by decide, visible_append.2 ⟨visible_write item, visible_moreItems rest⟩⟩
  | .object ((key, value) :: rest) =>
      visible_cons.2 ⟨by decide, visible_append.2 ⟨visible_writeString key, visible_cons.2 ⟨by decide,
        visible_append.2 ⟨visible_write value, visible_moreMembers rest⟩⟩⟩⟩

theorem visible_moreItems : ∀ items, Visible (writeMoreItems items)
  | [] => by decide
  | item :: rest =>
      visible_cons.2 ⟨by decide, visible_append.2 ⟨visible_write item, visible_moreItems rest⟩⟩

theorem visible_moreMembers : ∀ members, Visible (writeMoreMembers members)
  | [] => by decide
  | (key, value) :: rest =>
      visible_cons.2 ⟨by decide, visible_append.2 ⟨visible_writeString key, visible_cons.2 ⟨by decide,
        visible_append.2 ⟨visible_write value, visible_moreMembers rest⟩⟩⟩⟩

end

end SocketRpc.Proofs.Json
