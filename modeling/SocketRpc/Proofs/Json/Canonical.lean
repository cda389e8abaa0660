import SocketRpc.Json.Basic

namespace SocketRpc.Proofs.Json
open SocketRpc.Json

variable {key : String} {value : Json} {members : List (String × Json)}

/-- What is to be shown of a tree may be assumed of all that is in an array or an object. -/
@[elab_as_elim]
theorem tree_induction {P : Json → Prop} (null : P .null) (bool : ∀ value, P (.bool value))
    (number : ∀ n, P (.number n)) (string : ∀ text, P (.string text))
    (array : ∀ items, (∀ item ∈ items, P item) → P (.array items))
    (object : ∀ members, (∀ m ∈ members, P m.2) → P (.object members)) (tree : Json) : P tree :=
  @Json.rec P (fun items => ∀ item ∈ items, P item) (fun members => ∀ m ∈ members, P m.2) (fun m => P m.2)
    null bool number string array object
    nofun (fun _ _ first rest => List.forall_mem_cons.2 ⟨first, rest⟩)
    nofun (fun _ _ first rest => List.forall_mem_cons.2 ⟨first, rest⟩)
    (fun _ _ value => value) tree

mutual

def Distinct : Json → Prop
  | .array items => DistinctItems items
  | .object members => (members.map Prod.fst).Nodup ∧ DistinctMembers members
  | .null | .bool _ | .number _ | .string _ => True

def DistinctItems : List Json → Prop
  | [] => True
  | item :: rest => Distinct item ∧ DistinctItems rest

def DistinctMembers : List (String × Json) → Prop
  | [] => True
  | (_, value) :: rest => Distinct value ∧ DistinctMembers rest

end

theorem insertAbsent_perm (absent : key ∉ members.map Prod.fst) :
    (insertAbsent key value members).Perm ((key, value) :: members) := by
  induction members with
  | nil => exact .refl _
  | cons first members ih =>
      obtain ⟨k, v⟩ := first
      obtain ⟨other, later⟩ : key ≠ k ∧ key ∉ members.map Prod.fst := by simpa using absent
      rw [insertAbsent, if_neg other]
      split
      · exact .refl _
      · exact ((ih later).cons (k, v)).trans (.swap (key, value) (k, v) members)

theorem canonicalMembers_perm (nodup : (members.map Prod.fst).Nodup) :
    (canonicalMembers members).Perm (members.map fun m => (m.1, m.2.canonical)) := by
  induction members with
  | nil => exact .refl _
  | cons first members ih =>
      obtain ⟨key, value⟩ := first
      obtain ⟨absent, nodup⟩ := List.nodup_cons.1 nodup
      have rest := ih nodup
      have keys : ((canonicalMembers members).map Prod.fst).Perm (members.map Prod.fst) := by
        simpa [Function.comp_def] using rest.map Prod.fst
      rw [canonicalMembers]
      exact (insertAbsent_perm fun member => absent (keys.mem_iff.1 member)).trans (rest.cons _)

def Sorted (members : List (String × Json)) : Prop := members.Pairwise fun a b => a.1 < b.1

theorem mem_insertAbsent {m : String × Json} (h : m ∈ insertAbsent key value members) :
    m = (key, value) ∨ m ∈ members := by
  induction members with
  | nil => exact .inl (List.mem_singleton.1 h)
  | cons first members ih =>
      rw [insertAbsent] at h
      split at h
      · exact List.mem_cons.1 h
      split at h
      · exact .inr h
      · rcases List.mem_cons.1 h with rfl | later
        · exact .inr List.mem_cons_self
        · exact (ih later).imp_right (List.mem_cons_of_mem _)

theorem sorted_insertAbsent (sorted : Sorted members) : Sorted (insertAbsent key value members) := by
  induction members with
  | nil => exact List.pairwise_singleton _ _
  | cons first members ih =>
      obtain ⟨above, rest⟩ := List.pairwise_cons.1 sorted
      rw [insertAbsent]
      split
      · next less =>
          refine List.pairwise_cons.2 ⟨fun m member => ?_, sorted⟩
          rcases List.mem_cons.1 member with rfl | member
          · exact less
          · exact String.lt_trans less (above m member)
      split
      · exact sorted
      · next notLess other =>
          refine List.pairwise_cons.2 ⟨fun m member => ?_, ih rest⟩
          rcases mem_insertAbsent member with rfl | member
          · exact Std.lt_of_le_of_ne (String.not_lt.1 notLess) (Ne.symm other)
          · exact above m member

theorem sorted_canonicalMembers (members : List (String × Json)) : Sorted (canonicalMembers members) := by
  induction members with
  | nil => exact .nil
  | cons first members ih =>
      rw [canonicalMembers]
      exact sorted_insertAbsent ih

theorem canonicalMembers_of_sorted (sorted : Sorted members)
    (settled : ∀ m ∈ members, m.2.canonical = m.2) : canonicalMembers members = members := by
  induction members with
  | nil => rfl
  | cons first members ih =>
      obtain ⟨key, value⟩ := first
      obtain ⟨above, sorted⟩ := List.pairwise_cons.1 sorted
      obtain ⟨same, settled⟩ := List.forall_mem_cons.1 settled
      rw [canonicalMembers, ih sorted settled, same]
      cases members with
      | nil => rfl
      | cons second members => exact if_pos (above second List.mem_cons_self)

theorem lookup_insertAbsent (sorted : Sorted members) (name : String) :
    (insertAbsent key value members).lookup name = (members ++ [(key, value)]).lookup name := by
  induction members with
  | nil => rfl
  | cons first members ih =>
      obtain ⟨k, v⟩ := first
      obtain ⟨above, later⟩ := List.pairwise_cons.1 sorted
      rw [insertAbsent]
      split
      · next less =>
          by_cases same : name = key
          · have absent : ((k, v) :: members).lookup key = none := by
              refine List.lookup_eq_none_iff.2 fun m member => bne_iff_ne.2 ?_
              rcases List.mem_cons.1 member with rfl | member
              · exact String.ne_of_lt less
              · exact String.ne_of_lt (String.lt_trans less (above m member))
            rw [same, List.lookup_append, absent]
            simp
          · simp [List.lookup_append, List.lookup_cons, beq_eq_false_iff_ne.2 same]
      split
      · next same =>
          subst same
          by_cases same : name = key
          · simp [same]
          · simp [List.lookup_append, List.lookup_cons, beq_eq_false_iff_ne.2 same]
      · rw [List.cons_append, List.lookup_cons, List.lookup_cons, ih later]

theorem lookup_canonicalMembers (members : List (String × Json)) (name : String) :
    (canonicalMembers members).lookup name = (members.reverse.lookup name).map canonical := by
  induction members with
  | nil => rfl
  | cons first members ih =>
      obtain ⟨key, value⟩ := first
      rw [canonicalMembers, lookup_insertAbsent (sorted_canonicalMembers members), List.lookup_append, ih,
        List.reverse_cons, List.lookup_append]
      cases members.reverse.lookup name with
      | some found => rfl
      | none => cases same : name == key <;> simp [List.lookup_cons, same]

theorem canonicalItems_eq_map (items : List Json) : canonicalItems items = items.map canonical := by
  induction items with
  | nil => rfl
  | cons item items ih => rw [canonicalItems, ih, List.map_cons]

theorem mem_canonicalMembers {m : String × Json} (h : m ∈ canonicalMembers members) :
    ∃ original ∈ members, m = (original.1, original.2.canonical) := by
  induction members with
  | nil => cases h
  | cons first members ih =>
      rcases mem_insertAbsent h with rfl | later
      · exact ⟨first, List.mem_cons_self, rfl⟩
      · obtain ⟨original, member, same⟩ := ih later
        exact ⟨original, List.mem_cons_of_mem _ member, same⟩

theorem canonical_canonical (tree : Json) : tree.canonical.canonical = tree.canonical := by
  induction tree using tree_induction with
  | array items ih =>
      simp only [canonical, canonicalItems_eq_map, List.map_map]
      exact congrArg Json.array (List.map_congr_left ih)
  | object members ih =>
      simp only [canonical]
      rw [canonicalMembers_of_sorted (sorted_canonicalMembers members)]
      intro m member
      obtain ⟨original, present, rfl⟩ := mem_canonicalMembers member
      exact ih original present
  | _ => rfl

theorem Sorted.keys_nodup (sorted : Sorted members) : (members.map Prod.fst).Nodup := by
  refine List.pairwise_map.2 (sorted.imp fun less same => ?_)
  rw [same] at less
  exact String.lt_irrefl _ less

theorem distinctItems_iff {items : List Json} : DistinctItems items ↔ ∀ item ∈ items, Distinct item := by
  induction items with
  | nil => exact ⟨nofun, fun _ => trivial⟩
  | cons item items ih => rw [DistinctItems, ih, List.forall_mem_cons]

theorem distinctMembers_iff : DistinctMembers members ↔ ∀ m ∈ members, Distinct m.2 := by
  induction members with
  | nil => exact ⟨nofun, fun _ => trivial⟩
  | cons member members ih => rw [DistinctMembers, ih, List.forall_mem_cons]

theorem distinct_canonical (tree : Json) : Distinct tree.canonical := by
  induction tree using tree_induction with
  | array items ih =>
      simp only [canonical, canonicalItems_eq_map, Distinct, distinctItems_iff, List.forall_mem_map]
      exact ih
  | object members ih =>
      refine ⟨(sorted_canonicalMembers members).keys_nodup, distinctMembers_iff.2 fun m member => ?_⟩
      obtain ⟨original, present, rfl⟩ := mem_canonicalMembers member
      exact ih original present
  | _ => trivial

theorem distinct_of_canonical {tree : Json} (h : tree.canonical = tree) : Distinct tree := by
  rw [← h]
  exact distinct_canonical tree

theorem depthItems_le {items : List Json} {bound : Nat} :
    depthItems items ≤ bound ↔ ∀ item ∈ items, item.depth ≤ bound := by
  induction items with
  | nil => exact ⟨nofun, fun _ => Nat.zero_le bound⟩
  | cons item items ih => rw [depthItems, Nat.max_le, ih, List.forall_mem_cons]

theorem depthMembers_le {bound : Nat} : depthMembers members ≤ bound ↔ ∀ m ∈ members, m.2.depth ≤ bound := by
  induction members with
  | nil => exact ⟨nofun, fun _ => Nat.zero_le bound⟩
  | cons member members ih => rw [depthMembers, Nat.max_le, ih, List.forall_mem_cons]

theorem depth_canonical (tree : Json) : tree.canonical.depth ≤ tree.depth := by
  induction tree using tree_induction with
  | array items ih =>
      simp only [canonical, canonicalItems_eq_map, depth, Nat.succ_le_succ_iff, depthItems_le,
        List.forall_mem_map]
      intro item member
      exact Nat.le_trans (ih item member) (depthItems_le.1 (Nat.le_refl _) item member)
  | object members ih =>
      simp only [canonical, depth, Nat.succ_le_succ_iff, depthMembers_le]
      intro m member
      obtain ⟨original, present, rfl⟩ := mem_canonicalMembers member
      exact Nat.le_trans (ih original present) (depthMembers_le.1 (Nat.le_refl _) original present)
  | _ => exact Nat.le_refl 0

end SocketRpc.Proofs.Json
