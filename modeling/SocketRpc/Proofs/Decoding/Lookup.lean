import SocketRpc.Proofs.Decoding.Records

/-!
# Records by the names of their fields

A record takes the members of an object in whatever order they come. So what it makes of an object with
distinct keys depends on nothing but the member that each of its fields finds under its own name.

* `Given` is what a decoder makes of a member that may be absent.
* `ofMembers_iff`: a record takes members of its fields only, and `Fills` its draft with what each field is
  given. `record_of_object` is the same for the whole record.
-/

namespace SocketRpc.Proofs.Decoding
open SocketRpc.Json SocketRpc.Proofs.Json

variable {σ α β : Type} {r : Record σ α} {d : Decoder α} {field : Field σ} {fields : List (Field σ)}
variable {draft last : σ} {key name : String} {tree : Json} {given : Option Json}
variable {members members' before after : List (String × Json)}

def memberOf (key : String) (members : List (String × Json)) : Json := (members.lookup key).getD .null

theorem lookup_other (other : name ≠ key) :
    (before ++ (key, tree) :: after).lookup name = (before ++ after).lookup name := by
  simp [List.lookup_append, List.lookup_cons, beq_eq_false_iff_ne.2 other]

theorem mem_of_lookup (found : members.lookup key = some tree) : (key, tree) ∈ members := by
  obtain ⟨before, after, rfl, -⟩ := List.lookup_eq_some_iff.1 found
  exact List.mem_append_right before List.mem_cons_self

inductive Given (d : Decoder α) : Option Json → Option α → Prop
  | absent : Given d none none
  | present {tree : Json} {x : α} (decoded : d.ofTree tree = .ok x) : Given d (some tree) (some x)

theorem given_map {f : α → β} {y : Option β} :
    Given (d.map f) given y ↔ ∃ x, Given d given x ∧ y = x.map f := by
  constructor
  · intro read
    cases read with
    | absent => exact ⟨none, .absent, rfl⟩
    | present decoded =>
        obtain ⟨x, made, rfl⟩ := map_ofTree.1 decoded
        exact ⟨some x, .present made, rfl⟩
  · rintro ⟨x, read, rfl⟩
    cases read with
    | absent => exact .absent
    | @present _ x decoded => exact .present (map_ofTree.2 ⟨x, decoded, rfl⟩)

theorem given_some {x : α} : Given d given (some x) ↔ ∃ tree, given = some tree ∧ d.ofTree tree = .ok x := by
  constructor
  · intro read
    cases read with
    | present decoded => exact ⟨_, rfl, decoded⟩
  · rintro ⟨tree, rfl, decoded⟩
    exact .present decoded

theorem given_optional {x : Option α} :
    (∃ read, Given d.optional given read ∧ read.join = x) ↔ d.optional.ofTree (given.getD .null) = .ok x := by
  constructor
  · rintro ⟨read, made, rfl⟩
    cases made with
    | absent => rfl
    | present decoded => exact decoded
  · intro decoded
    cases given with
    | none =>
        cases decoded
        exact ⟨none, .absent, rfl⟩
    | some tree => exact ⟨some x, .present decoded, rfl⟩

theorem given_value : (∃ read, Given .value given read ∧ read.getD .null = tree) ↔
    (given.getD .null).canonical = tree := by
  constructor
  · rintro ⟨read, made, rfl⟩
    cases made with
    | absent => rfl
    | present decoded =>
        cases decoded
        rfl
  · rintro rfl
    cases given with
    | none => exact ⟨none, .absent, rfl⟩
    | some tree => exact ⟨some tree.canonical, .present rfl, rfl⟩

def Fills (members : List (String × Json)) : List (Field σ) → σ → σ → Prop
  | [], draft, last => draft = last
  | field :: fields, draft, last => ∃ update, Given field.decoder (members.lookup field.name) update ∧
      Fills members fields (update.getD id draft) last

theorem fills_nil : Fills members [] draft last ↔ draft = last := .rfl

theorem fills_absent (absent : members.lookup field.name = none) :
    Fills members (field :: fields) draft last ↔ Fills members fields draft last := by
  rw [Fills, absent]
  constructor
  · rintro ⟨_, nothing, fills⟩
    cases nothing
    exact fills
  · intro fills
    exact ⟨none, .absent, fills⟩

theorem fills_present (found : members.lookup field.name = some tree) :
    Fills members (field :: fields) draft last ↔
      ∃ update, field.decoder.ofTree tree = .ok update ∧ Fills members fields (update draft) last := by
  rw [Fills, found]
  constructor
  · rintro ⟨_, made, fills⟩
    cases made with
    | present decoded => exact ⟨_, decoded, fills⟩
  · rintro ⟨update, decoded, fills⟩
    exact ⟨some update, .present decoded, fills⟩

theorem fills_map {f : β → σ → σ} {d : Decoder β} {lack : Bool} :
    Fills members (⟨name, d.map f, lack⟩ :: fields) draft last ↔ ∃ x, Given d (members.lookup name) x ∧
      Fills members fields (x.elim draft (f · draft)) last := by
  simp only [Fills, given_map]
  constructor
  · rintro ⟨_, ⟨x, read, rfl⟩, later⟩
    refine ⟨x, read, ?_⟩
    cases x <;> exact later
  · rintro ⟨x, read, later⟩
    refine ⟨x.map f, ⟨x, read, rfl⟩, ?_⟩
    cases x <;> exact later

theorem fills_congr (same : ∀ field ∈ fields, members.lookup field.name = members'.lookup field.name) :
    Fills members fields draft last ↔ Fills members' fields draft last := by
  induction fields generalizing draft with
  | nil => exact .rfl
  | cons field fields ih =>
      obtain ⟨here, later⟩ := List.forall_mem_cons.1 same
      simp only [Fills, here, ih later]

theorem subset_fresh {keys names : List String} (fresh : key ∉ keys) : keys ⊆ key :: names ↔ keys ⊆ names := by
  constructor
  · intro within other present
    apply (List.mem_cons.1 (within present)).resolve_left
    rintro rfl
    exact fresh present
  · intro within
    exact List.subset_cons_of_subset key within

theorem ofMembers_without (others : ∀ m ∈ members, field.name ≠ m.1) :
    r.ofMembers (field :: fields) draft members = .ok last ↔ r.ofMembers fields draft members = .ok last := by
  refine ⟨fun made => ?_, ofMembers_unused others⟩
  induction members generalizing fields draft with
  | nil => exact made
  | cons member members ih =>
      obtain ⟨other, others⟩ := List.forall_mem_cons.1 others
      obtain ⟨found, left, update, taken, decoded, made⟩ := ofMembers_cons.1 made
      rw [Record.take?, if_neg other] at taken
      obtain ⟨⟨_, kept⟩, later, same⟩ := Option.map_eq_some_iff.1 taken
      cases same
      exact ofMembers_cons.2 ⟨found, kept, update, later, decoded, ih others made⟩

theorem ofMembers_with : r.ofMembers (field :: fields) draft ((field.name, tree) :: members) = .ok last ↔
    ∃ update, field.decoder.ofTree tree = .ok update ∧ r.ofMembers fields (update draft) members = .ok last := by
  have taken : Record.take? field.name (field :: fields) = some (field, fields) := if_pos rfl
  rw [ofMembers_cons]
  constructor
  · rintro ⟨_, _, update, same, decoded, made⟩
    cases taken.symm.trans same
    exact ⟨update, decoded, made⟩
  · rintro ⟨update, decoded, made⟩
    exact ⟨field, fields, update, taken, decoded, made⟩

theorem ofMembers_nil : r.ofMembers [] draft members = .ok last ↔ members = [] ∧ draft = last := by
  cases members with
  | nil =>
      rw [Record.ofMembers, Except.ok.injEq]
      exact (and_iff_right rfl).symm
  | cons member members =>
      have absent : Record.take? member.1 ([] : List (Field σ)) = none := rfl
      obtain ⟨reason, refused⟩ := ofMembers_unknown r draft member.2 absent members
      rw [refused]
      constructor
      · intro made
        cases made
      · intro empty
        cases empty.1

theorem ofMembers_iff (names : (fields.map Field.name).Nodup) (commute : fields.Pairwise Commuting)
    (nodup : (members.map Prod.fst).Nodup) : r.ofMembers fields draft members = .ok last ↔
      members.map Prod.fst ⊆ fields.map Field.name ∧ Fills members fields draft last := by
  induction fields generalizing members draft with
  | nil => simp [ofMembers_nil, Fills]
  | cons field fields ih =>
      obtain ⟨own, names⟩ := List.nodup_cons.1 names
      have later := (List.pairwise_cons.1 commute).2
      cases found : members.lookup field.name with
      | none =>
          have others : ∀ m ∈ members, field.name ≠ m.1 := by
            simpa [bne_iff_ne] using List.lookup_eq_none_iff.1 found
          have fresh : field.name ∉ members.map Prod.fst := by
            intro present
            obtain ⟨m, member, same⟩ := List.mem_map.1 present
            exact others m member same.symm
          rw [ofMembers_without others, ih names later nodup, fills_absent found, List.map_cons, subset_fresh fresh]
      | some tree =>
          -- The member is moved to the front, where its field takes it.
          obtain ⟨before, after, rfl, -⟩ := List.lookup_eq_some_iff.1 found
          have perm : (before ++ (field.name, tree) :: after).Perm ((field.name, tree) :: (before ++ after)) :=
            List.perm_middle
          have nodup' : (((field.name, tree) :: (before ++ after)).map Prod.fst).Nodup :=
            (perm.map Prod.fst).nodup_iff.1 nodup
          have front : r.ofMembers (field :: fields) draft (before ++ (field.name, tree) :: after) = .ok last ↔
              r.ofMembers (field :: fields) draft ((field.name, tree) :: (before ++ after)) = .ok last :=
            ⟨ofMembers_perm perm nodup commute, ofMembers_perm perm.symm nodup' commute⟩
          obtain ⟨fresh, nodup'⟩ := List.nodup_cons.1 nodup'
          have keys : (before ++ (field.name, tree) :: after).map Prod.fst ⊆ (field :: fields).map Field.name ↔
              (before ++ after).map Prod.fst ⊆ fields.map Field.name := by
            rw [List.map_cons, ← subset_fresh fresh]
            have same := perm.map Prod.fst
            refine ⟨fun within => ?_, fun within => ?_⟩
            · exact (List.cons_subset.1 (List.Subset.trans same.symm.subset within)).2
            · exact List.Subset.trans same.subset (List.cons_subset.2 ⟨List.mem_cons_self, within⟩)
          have others : ∀ other ∈ fields, (before ++ (field.name, tree) :: after).lookup other.name =
              (before ++ after).lookup other.name := by
            intro other member
            apply lookup_other
            intro same
            exact own (same ▸ List.mem_map_of_mem member)
          rw [front, ofMembers_with, keys, fills_present found]
          simp only [ih names later nodup', fills_congr others]
          constructor
          · rintro ⟨update, decoded, within, fills⟩
            exact ⟨within, update, decoded, fills⟩
          · rintro ⟨within, update, decoded, fills⟩
            exact ⟨update, decoded, within, fills⟩

theorem record_of_object {x : α} (regular : Regular r) (names : r.names.Nodup)
    (nodup : (members.map Prod.fst).Nodup) : r.decoder.ofTree (.object members) = .ok x ↔
      members.map Prod.fst ⊆ r.names ∧
        ∃ draft, Fills members r.fields r.empty draft ∧ r.build draft = .ok x := by
  simp only [Record.decoder, Record.ofTree, bind_ok, ofMembers_iff names regular.commute nodup]
  constructor
  · rintro ⟨draft, ⟨keys, fills⟩, built⟩
    exact ⟨keys, draft, fills, built⟩
  · rintro ⟨keys, draft, fills, built⟩
    exact ⟨draft, ⟨keys, fills⟩, built⟩

end SocketRpc.Proofs.Decoding
