import SocketRpc.Decoder.Record
import SocketRpc.Proofs.Decoding.Agreement

/-!
# The two ways of a record

* `ofMembers_cons` and `ofItems_cons` say how a record takes a member or an item.
* `members_of_text` and `text_of_members`: from a text a record takes the members that the reader finds
  there. `items_of_text` and `text_of_items` are the same for an array.
* `ofMembers_perm`: the order of the members of an object does not matter, as the fields of a record do
  not depend on each other.
* `agrees_record` puts them together.
-/

namespace SocketRpc.Proofs.Decoding
open SocketRpc.Json SocketRpc.Proofs.Json Ascii

variable {σ α : Type} {r : Record σ α} {room i : Nat} {input rest : List UInt8} {tree : Json}
variable {field : Field σ} {fields remaining left : List (Field σ)} {key : String} {draft last : σ}
variable {update : σ → σ} {members members' : List (String × Json)} {items : List Json}

theorem take?_some (taken : Record.take? key remaining = some (field, left)) :
    field.name = key ∧ remaining.Perm (field :: left) := by
  induction remaining generalizing left with
  | nil => cases taken
  | cons first remaining ih =>
      simp only [Record.take?] at taken
      split at taken
      · next same =>
          cases taken
          exact ⟨same, .refl _⟩
      · obtain ⟨⟨found, kept⟩, later, same⟩ := Option.map_eq_some_iff.1 taken
        cases same
        obtain ⟨name, perm⟩ := ih later
        exact ⟨name, (perm.cons first).trans (.swap _ first kept)⟩

theorem fieldFor_taken (r : Record σ α) (taken : Record.take? key remaining = some (field, left)) :
    r.fieldFor remaining key = .ok ⟨(field, left), Record.take?_length taken⟩ := by
  unfold Record.fieldFor
  split
  · next found => cases taken.symm.trans found; rfl
  · next none => cases taken.symm.trans none

theorem fieldFor_unknown (r : Record σ α) (absent : Record.take? key remaining = none) :
    ∃ reason, r.fieldFor remaining key = .error reason := by
  unfold Record.fieldFor
  split
  · next found => cases absent.symm.trans found
  · exact ⟨_, rfl⟩

theorem ofMembers_taken (r : Record σ α) (taken : Record.take? key remaining = some (field, left))
    (decoded : field.decoder.ofTree tree = .ok update) (members : List (String × Json)) :
    r.ofMembers remaining draft ((key, tree) :: members) = r.ofMembers left (update draft) members := by
  rw [Record.ofMembers, fieldFor_taken r taken]
  simp only [decoded]

theorem ofMembers_unknown (r : Record σ α) (draft : σ) (tree : Json)
    (absent : Record.take? key remaining = none) (members : List (String × Json)) :
    ∃ reason, r.ofMembers remaining draft ((key, tree) :: members) = .error reason := by
  obtain ⟨reason, unknown⟩ := fieldFor_unknown r absent
  exact ⟨reason, by rw [Record.ofMembers, unknown]⟩

theorem ofMembers_cons : r.ofMembers remaining draft ((key, tree) :: members) = .ok last ↔
    ∃ field left update, Record.take? key remaining = some (field, left) ∧
      field.decoder.ofTree tree = .ok update ∧ r.ofMembers left (update draft) members = .ok last := by
  cases taken : Record.take? key remaining with
  | none =>
      obtain ⟨reason, unknown⟩ := ofMembers_unknown r draft tree taken members
      rw [unknown]
      exact ⟨nofun, nofun⟩
  | some found =>
      obtain ⟨field, left⟩ := found
      cases made : field.decoder.ofTree tree with
      | error reason =>
          rw [Record.ofMembers, fieldFor_taken r taken]
          simp only [made]
          refine ⟨nofun, ?_⟩
          rintro ⟨_, _, _, same, decoded, -⟩
          cases same
          cases made.symm.trans decoded
      | ok update =>
          rw [ofMembers_taken r taken made]
          constructor
          · intro later
            exact ⟨field, left, update, rfl, made, later⟩
          · rintro ⟨_, _, _, same, decoded, later⟩
            cases same
            cases made.symm.trans decoded
            exact later

theorem ofMembers_named (made : r.ofMembers remaining draft members = .ok last) :
    ∀ m ∈ members, ∃ field ∈ remaining, field.name = m.1 := by
  induction members generalizing remaining draft with
  | nil => nofun
  | cons member members ih =>
      obtain ⟨field, left, update, taken, decoded, made⟩ := ofMembers_cons.1 made
      obtain ⟨name, perm⟩ := take?_some taken
      refine List.forall_mem_cons.2 ⟨⟨field, perm.mem_iff.2 List.mem_cons_self, name⟩, ?_⟩
      intro m member
      obtain ⟨other, kept, name⟩ := ih made m member
      exact ⟨other, perm.mem_iff.2 (List.mem_cons_of_mem _ kept), name⟩

theorem ofMembers_keeps {P : σ → Prop}
    (keeps : ∀ field ∈ remaining, field.name ∈ members.map Prod.fst → ∀ tree update,
      field.decoder.ofTree tree = .ok update → ∀ draft, P draft → P (update draft))
    (holds : P draft) (made : r.ofMembers remaining draft members = .ok last) : P last := by
  induction members generalizing remaining draft with
  | nil =>
      cases made
      exact holds
  | cons member members ih =>
      obtain ⟨field, left, update, taken, decoded, made⟩ := ofMembers_cons.1 made
      obtain ⟨name, perm⟩ := take?_some taken
      have named : field.name ∈ (member :: members).map Prod.fst := name ▸ List.mem_cons_self
      refine ih ?_ (keeps field (perm.mem_iff.2 List.mem_cons_self) named _ _ decoded draft holds) made
      intro other kept later
      exact keeps other (perm.mem_iff.2 (List.mem_cons_of_mem _ kept)) (List.mem_cons_of_mem _ later)

theorem ofMembers_unused (others : ∀ m ∈ members, field.name ≠ m.1)
    (made : r.ofMembers remaining draft members = .ok last) :
    r.ofMembers (field :: remaining) draft members = .ok last := by
  induction members generalizing remaining draft with
  | nil => exact made
  | cons member members ih =>
      obtain ⟨other, others⟩ := List.forall_mem_cons.1 others
      obtain ⟨found, left, update, taken, decoded, made⟩ := ofMembers_cons.1 made
      refine ofMembers_cons.2 ⟨found, field :: left, update, ?_, decoded, ih others made⟩
      simp [Record.take?, other, taken]

theorem forall_optional {β : Type} {given : Option β} {value : β → Json} {p : String × Json → Prop}
    (h : ∀ x, given = some x → p (key, value x)) : ∀ m ∈ (given.map fun x => (key, value x)).toList, p m := by
  cases given with
  | none => nofun
  | some x => simpa using h x

theorem ofMembers_optional {β : Type} {value : β → Json} {f : β → σ → σ} (given : Option β)
    (decoded : ∀ x, given = some x → field.decoder.ofTree (value x) = .ok (f x))
    (others : ∀ m ∈ members, field.name ≠ m.1)
    (made : r.ofMembers remaining (given.elim draft (f · draft)) members = .ok last) :
    r.ofMembers (field :: remaining) draft ((given.map fun x => (field.name, value x)).toList ++ members) =
      .ok last := by
  cases given with
  | none => exact ofMembers_unused others made
  | some x =>
      have taken : Record.take? field.name (field :: remaining) = some (field, remaining) := if_pos rfl
      exact ofMembers_cons.2 ⟨field, remaining, f x, taken, decoded x rfl, made⟩

theorem agree_left (agree : ∀ field ∈ remaining, Agrees field.decoder)
    (taken : Record.take? key remaining = some (field, left)) :
    Agrees field.decoder ∧ ∀ field ∈ left, Agrees field.decoder :=
  List.forall_mem_cons.1 fun field member => agree field ((take?_some taken).2.mem_iff.2 member)

theorem members_of_text {remaining : List (Field σ)} {first : Bool} {draft : σ} {input : List UInt8}
    (agree : ∀ field ∈ remaining, Agrees field.decoder)
    (h : r.membersOfText room remaining first draft input = .ok (last, rest)) :
    ∃ members, Members room first input members rest ∧ r.ofMembers remaining draft members = .ok last := by
  -- Each key takes one of the fields, so that fewer remain.
  rw [Record.membersOfText] at h
  match due : Record.nextKey first input with
  | .error fault => rw [due] at h; cases h
  | .ok (none, left) =>
      rw [due] at h
      cases h
      exact ⟨[], .close due, rfl⟩
  | .ok (some key, mid) =>
      rw [due] at h
      cases taken : Record.take? key remaining with
      | none =>
          obtain ⟨reason, unknown⟩ := fieldFor_unknown r taken
          simp only [unknown] at h
          cases h
      | some found =>
          obtain ⟨field, others⟩ := found
          simp only [fieldFor_taken r taken] at h
          cases colon : Decoder.readColon mid with
          | error fault => simp only [colon] at h; cases h
          | ok start =>
              cases decoded : field.decoder.ofText room start with
              | error fault => simp only [colon, decoded] at h; cases h
              | ok result =>
                  obtain ⟨update, left⟩ := result
                  simp only [colon, decoded] at h
                  obtain ⟨agrees, agree⟩ := agree_left agree taken
                  have := Record.take?_length taken
                  obtain ⟨members, found, made⟩ := members_of_text agree h
                  obtain ⟨value, read, decoded⟩ := (agrees.reads _ _ _ _).1 decoded
                  exact ⟨(key, value) :: members, .more due colon read found,
                    ofMembers_cons.2 ⟨field, others, update, taken, decoded, made⟩⟩
termination_by remaining.length

theorem text_of_members {first : Bool} (found : Members room first input members rest)
    (agree : ∀ field ∈ remaining, Agrees field.decoder)
    (made : r.ofMembers remaining draft members = .ok last) :
    r.membersOfText room remaining first draft input = .ok (last, rest) := by
  induction found generalizing remaining draft with
  | close due =>
      cases made
      rw [Record.membersOfText, due]
  | @more first input mid start left rest key value members due colon read later ih =>
      obtain ⟨field, others, update, taken, decoded, made⟩ := ofMembers_cons.1 made
      obtain ⟨agrees, agree⟩ := agree_left agree taken
      have direct := (agrees.reads room start update left).2 ⟨value, read, decoded⟩
      rw [Record.membersOfText, due]
      simp only [fieldFor_taken r taken, colon, direct]
      exact ih agree made

theorem ofItems_cons {n : Nat} : r.ofItems n i (field :: remaining) draft (tree :: items) = .ok last ↔
    ∃ update, field.decoder.ofTree tree = .ok update ∧
      r.ofItems n (i + 1) remaining (update draft) items = .ok last := by
  rw [Record.ofItems]
  cases field.decoder.ofTree tree with
  | error reason => exact ⟨nofun, nofun⟩
  | ok update => exact ⟨fun later => ⟨update, rfl, later⟩, fun ⟨_, same, later⟩ => by cases same; exact later⟩

theorem ofItems_length (n m : Nat) : r.ofItems n i remaining draft items = .ok last ↔
    r.ofItems m i remaining draft items = .ok last := by
  induction items generalizing i remaining draft with
  | nil => cases remaining <;> exact .rfl
  | cons tree items ih =>
      cases remaining with
      | nil => exact ⟨nofun, nofun⟩
      | cons field remaining => simp only [ofItems_cons, ih]

theorem items_of_text (n : Nat) (agree : ∀ field ∈ remaining, Agrees field.decoder)
    (h : r.itemsOfText room i remaining draft input = .ok (last, rest)) :
    ∃ items, Items room (i == 0) input items rest ∧ r.ofItems n i remaining draft items = .ok last := by
  induction remaining generalizing i draft input with
  | nil =>
      rw [Record.itemsOfText] at h
      obtain ⟨_, closes, same⟩ := map_ok.1 h
      cases same
      exact ⟨[], .close (closeItems_ok.1 closes), rfl⟩
  | cons field remaining ih =>
      rw [Record.itemsOfText] at h
      match due : Record.nextItem (i == 0) input with
      | .error fault => rw [due] at h; cases h
      | .ok (false, mid) =>
          obtain ⟨left, rfl, ends⟩ := nextItem_end due
          have closes : Record.closeItems (closeBracket :: left) = .ok left := closeItems_ok.2 rfl
          rw [due] at h
          cases lacks : r.lack i (field :: remaining) with
          | error reason => simp only [lacks] at h; cases h
          | ok _ =>
              simp only [lacks, closes] at h
              cases h
              exact ⟨[], .close ends, map_ok.2 ⟨(), lacks, rfl⟩⟩
      | .ok (true, mid) =>
          rw [due] at h
          cases decoded : field.decoder.ofText room mid with
          | error fault => simp only [decoded] at h; cases h
          | ok result =>
              obtain ⟨update, left⟩ := result
              simp only [decoded] at h
              obtain ⟨agrees, agree⟩ := List.forall_mem_cons.1 agree
              obtain ⟨items, found, made⟩ := ih agree h
              obtain ⟨item, read, decoded⟩ := (agrees.reads _ _ _ _).1 decoded
              exact ⟨item :: items, .more due read found, ofItems_cons.2 ⟨update, decoded, made⟩⟩

theorem text_of_items (n : Nat) {first : Bool} (found : Items room first input items rest)
    (begun : first = (i == 0)) (agree : ∀ field ∈ remaining, Agrees field.decoder)
    (made : r.ofItems n i remaining draft items = .ok last) :
    r.itemsOfText room i remaining draft input = .ok (last, rest) := by
  induction found generalizing i remaining draft with
  | @close first input rest ends =>
      have closes := closeItems_ok.2 ends
      cases remaining with
      | nil =>
          cases made
          rw [Record.itemsOfText, closes]
          rfl
      | cons field remaining =>
          have closesAgain : Record.closeItems (closeBracket :: rest) = .ok rest := closeItems_ok.2 rfl
          obtain ⟨_, lacks, same⟩ := map_ok.1 made
          cases same
          rw [Record.itemsOfText, nextItem_closing ends]
          simp only [lacks, closesAgain]
          rfl
  | @more first input mid left rest item items due read later ih =>
      cases remaining with
      | nil => cases made
      | cons field remaining =>
          obtain ⟨update, decoded, made⟩ := ofItems_cons.1 made
          obtain ⟨agrees, agree⟩ := List.forall_mem_cons.1 agree
          have direct := (agrees.reads room mid update left).2 ⟨item, read, decoded⟩
          rw [begun] at due
          rw [Record.itemsOfText, due]
          simp only [direct]
          exact ih rfl agree made

def Commuting (f g : Field σ) : Prop :=
  ∀ tree tree' update update', f.decoder.ofTree tree = .ok update → g.decoder.ofTree tree' = .ok update' →
    ∀ draft, update (update' draft) = update' (update draft)

theorem Commuting.symm {f g : Field σ} (h : Commuting f g) : Commuting g f :=
  fun _ _ _ _ made made' draft => (h _ _ _ _ made' made draft).symm

theorem commuting_map {α β : Type} {name name' : String} {d : Decoder α} {d' : Decoder β} {lack lack' : Bool}
    {f : α → σ → σ} {g : β → σ → σ} (commute : ∀ x y draft, f x (g y draft) = g y (f x draft)) :
    Commuting ⟨name, d.map f, lack⟩ ⟨name', d'.map g, lack'⟩ := by
  intro tree tree' update update' made made' draft
  obtain ⟨x, -, rfl⟩ := map_ok.1 made
  obtain ⟨y, -, rfl⟩ := map_ok.1 made'
  exact commute x y draft

theorem take?_swap {key key' : String} (other : key ≠ key') {f g : Field σ} {left right : List (Field σ)}
    (first : Record.take? key fields = some (f, left)) (second : Record.take? key' left = some (g, right)) :
    ∃ left', Record.take? key' fields = some (g, left') ∧ Record.take? key left' = some (f, right) := by
  induction fields generalizing left right with
  | nil => cases first
  | cons field fields ih =>
      simp only [Record.take?] at first
      split at first
      · next same =>
          cases first
          refine ⟨f :: right, ?_, ?_⟩
          · simp [Record.take?, same, other, second]
          · simp [Record.take?, same]
      · next notFirst =>
          obtain ⟨⟨found, kept⟩, taken, same⟩ := Option.map_eq_some_iff.1 first
          cases same
          simp only [Record.take?] at second
          split at second
          · next named =>
              cases second
              refine ⟨fields, ?_, taken⟩
              simp [Record.take?, named]
          · next notSecond =>
              obtain ⟨⟨found', kept'⟩, taken', same⟩ := Option.map_eq_some_iff.1 second
              cases same
              obtain ⟨left', swapped, back⟩ := ih taken taken'
              refine ⟨field :: left', ?_, ?_⟩
              · simp [Record.take?, notSecond, swapped]
              · simp [Record.take?, notFirst, back]

theorem commute_left (commute : remaining.Pairwise Commuting)
    (taken : Record.take? key remaining = some (field, left)) :
    (∀ other ∈ left, Commuting field other) ∧ left.Pairwise Commuting := by
  have perm := ((take?_some taken).2.pairwise_iff Commuting.symm).1 commute
  exact List.pairwise_cons.1 perm

theorem ofMembers_perm (perm : members.Perm members') (nodup : (members.map Prod.fst).Nodup)
    (commute : remaining.Pairwise Commuting)
    (made : r.ofMembers remaining draft members = .ok last) :
    r.ofMembers remaining draft members' = .ok last := by
  induction perm generalizing remaining draft with
  | nil => exact made
  | cons member perm ih =>
      obtain ⟨field, left, update, taken, decoded, made⟩ := ofMembers_cons.1 made
      have later := ih (List.nodup_cons.1 nodup).2 (commute_left commute taken).2 made
      exact ofMembers_cons.2 ⟨field, left, update, taken, decoded, later⟩
  | swap second first members =>
      obtain ⟨f, left, update, taken, decoded, made⟩ := ofMembers_cons.1 made
      obtain ⟨g, right, update', taken', decoded', made⟩ := ofMembers_cons.1 made
      -- The two take different fields, so each finds its own also after the other.
      have other : first.1 ≠ second.1 := by
        intro same
        exact (List.nodup_cons.1 nodup).1 (same ▸ List.mem_cons_self)
      obtain ⟨left', swapped, back⟩ := take?_swap other taken taken'
      have either : update (update' draft) = update' (update draft) :=
        (commute_left commute taken).1 g ((take?_some taken').2.mem_iff.2 List.mem_cons_self)
          _ _ _ _ decoded decoded' draft
      refine ofMembers_cons.2 ⟨g, left', update', swapped, decoded', ?_⟩
      exact ofMembers_cons.2 ⟨f, right, update, back, decoded, either.symm ▸ made⟩
  | trans perm perm' ih ih' =>
      have nodup' := (perm.map Prod.fst).nodup_iff.1 nodup
      exact ih' nodup' commute (ih nodup commute made)

theorem ofMembers_canonical (agree : ∀ field ∈ remaining, Agrees field.decoder)
    (distinct : DistinctMembers members) :
    r.ofMembers remaining draft (members.map fun m => (m.1, m.2.canonical)) = .ok last ↔
      r.ofMembers remaining draft members = .ok last := by
  induction members generalizing remaining draft with
  | nil => exact .rfl
  | cons member members ih =>
      obtain ⟨key, tree⟩ := member
      obtain ⟨here, later⟩ := distinct
      simp only [List.map_cons, ofMembers_cons]
      refine exists_congr fun field => exists_congr fun left => exists_congr fun update => ?_
      refine and_congr_right fun taken => ?_
      obtain ⟨agrees, agree⟩ := agree_left agree taken
      rw [agrees.settles tree here, ih agree later]

theorem ofItems_canonical (n : Nat) (agree : ∀ field ∈ remaining, Agrees field.decoder)
    (distinct : DistinctItems items) :
    r.ofItems n i remaining draft (items.map Json.canonical) = .ok last ↔
      r.ofItems n i remaining draft items = .ok last := by
  induction items generalizing i remaining draft with
  | nil => exact .rfl
  | cons tree items ih =>
      obtain ⟨here, later⟩ := distinct
      cases remaining with
      | nil => exact ⟨nofun, nofun⟩
      | cons field remaining =>
          obtain ⟨agrees, agree⟩ := List.forall_mem_cons.1 agree
          simp only [List.map_cons, ofItems_cons, agrees.settles tree here, ih agree later]

structure Regular (r : Record σ α) : Prop where
  agree : ∀ field ∈ r.fields, Agrees field.decoder
  commute : r.fields.Pairwise Commuting

theorem record_settles (regular : Regular r) (distinct : Distinct tree) (x : α) :
    r.ofTree tree.canonical = .ok x ↔ r.ofTree tree = .ok x := by
  cases tree with
  | object members =>
      obtain ⟨nodup, distinct⟩ := distinct
      have perm := canonicalMembers_perm nodup
      have keys : (members.map fun m => (m.1, m.2.canonical)).map Prod.fst = members.map Prod.fst := by
        rw [List.map_map]
        rfl
      have nodup' := (perm.map Prod.fst).nodup_iff.2 (keys ▸ nodup)
      have same (last : σ) : r.ofMembers r.fields r.empty (canonicalMembers members) = .ok last ↔
          r.ofMembers r.fields r.empty members = .ok last := by
        rw [← ofMembers_canonical regular.agree distinct]
        exact ⟨ofMembers_perm perm nodup' regular.commute,
          ofMembers_perm perm.symm (keys ▸ nodup) regular.commute⟩
      simp only [canonical, Record.ofTree, bind_ok, same]
  | array items =>
      simp only [canonical, canonicalItems_eq_map, Record.ofTree, bind_ok]
      refine exists_congr fun last => and_congr_left fun built => ?_
      rw [ofItems_canonical _ regular.agree distinct]
      exact ofItems_length _ _
  | _ => exact .rfl

theorem finish_ok {read : Except DecodeFault (σ × List UInt8)} {place : DecodeFault → DecodeFault} {x : α} :
    r.finish (read.mapError place) = .ok (x, rest) ↔
      ∃ last, read = .ok (last, rest) ∧ r.build last = .ok x := by
  cases read with
  | error fault =>
      constructor
      · intro same
        cases same
      · rintro ⟨_, same, -⟩
        cases same
  | ok result =>
      obtain ⟨last, left⟩ := result
      have read : r.finish (.ok (last, left)) = .ok (x, rest) ↔ left = rest ∧ r.build last = .ok x := by
        simp only [Record.finish]
        cases r.build last <;> simp [and_comm]
      refine read.trans ?_
      constructor
      · rintro ⟨rfl, built⟩
        exact ⟨last, rfl, built⟩
      · rintro ⟨_, same, built⟩
        cases same
        exact ⟨rfl, built⟩

theorem record_reads (regular : Regular r) (room : Nat) (input : List UInt8) (x : α) (rest : List UInt8) :
    r.ofText room input = .ok (x, rest) ↔
      ∃ tree, Json.read room input = .ok (tree, rest) ∧ r.ofTree tree = .ok x := by
  rw [← read_skip]
  unfold Record.ofText
  cases skip : skipBlanks input with
  | nil => simp [read_nil]
  | cons b more =>
      by_cases object : b = openBrace
      · subst object
        cases room with
        | zero => exact ⟨nofun, nofun⟩
        | succ room =>
            refine finish_ok.trans ?_
            simp only [read_object]
            constructor
            · rintro ⟨last, read, built⟩
              obtain ⟨members, found, made⟩ := members_of_text regular.agree read
              exact ⟨.object members, ⟨members, rfl, found⟩, bind_ok.2 ⟨last, made, built⟩⟩
            · rintro ⟨_, ⟨members, rfl, found⟩, made⟩
              obtain ⟨last, made, built⟩ := bind_ok.1 made
              exact ⟨last, text_of_members found regular.agree made, built⟩
      by_cases list : b = openBracket
      · subst list
        cases room with
        | zero => exact ⟨nofun, nofun⟩
        | succ room =>
            refine finish_ok.trans ?_
            simp only [read_array]
            constructor
            · rintro ⟨last, read, built⟩
              obtain ⟨items, found, made⟩ := items_of_text 0 regular.agree read
              refine ⟨.array items, ⟨items, rfl, found⟩, bind_ok.2 ⟨last, ?_, built⟩⟩
              exact (ofItems_length 0 items.length).1 made
            · rintro ⟨_, ⟨items, rfl, found⟩, made⟩
              obtain ⟨last, made, built⟩ := bind_ok.1 made
              exact ⟨last, text_of_items items.length found rfl regular.agree made, built⟩
      · have other : (b == openBrace || b == openBracket) = false := by simp [object, list]
        simp only [other, Bool.false_eq_true, if_false]
        refine ⟨nofun, ?_⟩
        rintro ⟨tree, read, made⟩
        have told := firstByte_of_read (skipBlanks_solid skip) read
        cases tree with
        | object members => exact absurd (told.object.2 ⟨members, rfl⟩) object
        | array items => exact absurd (told.array.2 ⟨items, rfl⟩) list
        | _ => cases made

theorem agrees_record (regular : Regular r) : Agrees r.decoder where
  reads := record_reads regular
  settles _ distinct := record_settles regular distinct

end SocketRpc.Proofs.Decoding
