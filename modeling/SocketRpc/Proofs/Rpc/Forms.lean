import SocketRpc.Proofs.Rpc.Members

namespace SocketRpc.Proofs.Rpc
open SocketRpc.Json SocketRpc.Proofs.Json SocketRpc.Proofs.Decoding

variable {σ α β : Type} {tree : Json} {members : List (String × Json)} {items : List Json} {r : Request}

inductive GivesParams : Json → Option Params → Prop
  | absent : GivesParams .null none
  | array (items : List Json) : GivesParams (.array items) (some (.array items))
  | map (members : List (String × Json)) : GivesParams (.object members) (some (.map members))

theorem params_ok {params : Params} (canonical : tree.canonical = tree) :
    Params.decoder.ofTree tree = .ok params ↔ tree = params.toJson := by
  have same : Params.ofTree? tree = some params ↔ tree = params.toJson := by
    rw [ofTree_some, canonical]
  rw [← same]
  simp only [Params.decoder, Decoder.whole]
  cases Params.ofTree? tree <;> simp

theorem params_given {params : Option Params} (canonical : tree.canonical = tree) :
    Params.decoder.optional.ofTree tree = .ok params ↔ GivesParams tree params := by
  constructor
  · intro decoded
    by_cases null : tree = .null
    · subst null
      cases decoded
      exact .absent
    rw [optional_ofTree null] at decoded
    obtain ⟨found, read, rfl⟩ := map_ok.1 decoded
    rw [(params_ok canonical).1 read]
    cases found with
    | array items => exact .array items
    | map members => exact .map members
  · intro given
    cases given with
    | absent => rfl
    | array items => exact map_ok.2 ⟨.array items, (params_ok canonical).2 rfl, rfl⟩
    | map members => exact map_ok.2 ⟨.map members, (params_ok canonical).2 rfl, rfl⟩

/-- An object has no other members and names its method. An array lists two to four items; what it does
not list is null. -/
inductive GivesRequest : Json → Request → Prop
  | object {members : List (String × Json)} {version : Option Version} {method : String}
      {params : Option Params} {id : Option Id}
      (keys : members.map Prod.fst ⊆ ["jsonrpc", "method", "params", "id"])
      (marked : GivesVersion (memberOf "jsonrpc" members) version)
      (text : members.lookup "method" = some (.string method))
      (content : GivesParams (memberOf "params" members) params)
      (own : GivesId (memberOf "id" members) id) :
      GivesRequest (.object members) ⟨version, method, params, id⟩
  | array {first : Json} {rest : List Json} {version : Option Version} {method : String}
      {params : Option Params} {id : Option Id} (short : rest.length ≤ 2)
      (marked : GivesVersion first version)
      (content : GivesParams (rest[0]?.getD .null) params)
      (own : GivesId (rest[1]?.getD .null) id) :
      GivesRequest (.array (first :: .string method :: rest)) ⟨version, method, params, id⟩

theorem request_filled {draft : Request.Draft} :
    Fills members Request.record.fields Request.record.empty draft ↔
      Given Version.decoder.optional (members.lookup "jsonrpc") draft.version ∧
      Given Decoder.string (members.lookup "method") draft.method ∧
      Given Params.decoder.optional (members.lookup "params") draft.params ∧
      Given Id.decoder.optional (members.lookup "id") draft.id := by
  simp only [Request.record, fills_map, fills_nil]
  constructor
  · rintro ⟨version, marked, method, text, params, content, id, own, rfl⟩
    cases version <;> cases method <;> cases params <;> cases id <;> exact ⟨marked, text, content, own⟩
  · rintro ⟨marked, text, content, own⟩
    refine ⟨_, marked, _, text, _, content, _, own, ?_⟩
    obtain ⟨version, method, params, id⟩ := draft
    cases version <;> cases method <;> cases params <;> cases id <;> rfl

theorem request_of_object (canonical : (Json.object members).canonical = .object members) :
    Request.decoder.ofTree (.object members) = .ok r ↔ GivesRequest (.object members) r := by
  have params_canonical := memberOf_canonical "params" canonical
  rw [Request.decoder, record_of_object regular_request (by decide) (members_canonical canonical).1]
  constructor
  · rintro ⟨keys, ⟨version, method, params, id⟩, fills, built⟩
    obtain ⟨marked, text, content, own⟩ := request_filled.1 fills
    obtain ⟨_, given, built⟩ := bind_ok.1 built
    cases required_ok.1 given
    cases built
    obtain ⟨_, found, decoded⟩ := given_some.1 text
    cases string_ok.1 decoded
    have marked := version_given.1 (given_optional.1 ⟨version, marked, rfl⟩)
    have content := (params_given params_canonical).1 (given_optional.1 ⟨params, content, rfl⟩)
    exact .object keys marked found content (id_given.1 (given_optional.1 ⟨id, own, rfl⟩))
  · intro given
    cases given with
    | @object _ _ method _ _ keys marked text content own =>
        obtain ⟨version, first, rfl⟩ := given_optional.2 (version_given.2 marked)
        have second : Given Decoder.string (members.lookup "method") (some method) :=
          given_some.2 ⟨_, text, string_ok.2 rfl⟩
        obtain ⟨params, third, rfl⟩ := given_optional.2 ((params_given params_canonical).2 content)
        obtain ⟨id, fourth, rfl⟩ := given_optional.2 (id_given.2 own)
        refine ⟨keys, ⟨version, some method, params, id⟩, ?_, rfl⟩
        exact request_filled.2 ⟨first, second, third, fourth⟩

theorem ofItems_map {record : Record σ α} {fields : List (Field σ)} {draft last : σ} {name : String}
    {f : β → σ → σ} {d : Decoder β} {lack : Bool} {n i : Nat} :
    record.ofItems n i (⟨name, d.map f, lack⟩ :: fields) draft (tree :: items) = .ok last ↔
      ∃ x, d.ofTree tree = .ok x ∧ record.ofItems n (i + 1) fields (f x draft) items = .ok last := by
  rw [ofItems_cons]
  constructor
  · rintro ⟨_, decoded, later⟩
    obtain ⟨x, read, rfl⟩ := map_ofTree.1 decoded
    exact ⟨x, read, later⟩
  · rintro ⟨x, read, later⟩
    exact ⟨f x, map_ofTree.2 ⟨x, read, rfl⟩, later⟩

theorem request_of_array (canonical : ∀ item ∈ items, item.canonical = item) :
    Request.decoder.ofTree (.array items) = .ok r ↔ GivesRequest (.array items) r := by
  constructor
  · intro decoded
    obtain ⟨draft, made, built⟩ := bind_ok.1 decoded
    -- One item after another takes the next field; an array may end after the second one.
    match items with
    | [] => cases made
    | [first] =>
        obtain ⟨_, _, made⟩ := ofItems_map.1 made
        cases made
    | first :: second :: items =>
      obtain ⟨version, marked, made⟩ := ofItems_map.1 made
      obtain ⟨method, text, made⟩ := ofItems_map.1 made
      have marked := version_given.1 marked
      obtain rfl := string_ok.1 text
      match items with
      | [] =>
          cases made
          cases built
          exact .array (Nat.zero_le 2) marked .absent .absent
      | third :: items =>
        obtain ⟨params, content, made⟩ := ofItems_map.1 made
        have content := (params_given (canonical third (by simp))).1 content
        match items with
        | [] =>
            cases made
            cases built
            exact .array (Nat.le_succ 1) marked content .absent
        | fourth :: items =>
          obtain ⟨id, own, made⟩ := ofItems_map.1 made
          cases items with
          | nil =>
              cases made
              cases built
              exact .array (Nat.le_refl 2) marked content (id_given.1 own)
          | cons => cases made
  · intro given
    cases given with
    | @array first rest version method params id short marked content own =>
        have marked := version_given.2 marked
        match rest with
        | [] =>
            cases content
            cases own
            refine bind_ok.2 ⟨⟨some version, some method, none, none⟩, ?_, rfl⟩
            exact ofItems_map.2 ⟨_, marked, ofItems_map.2 ⟨_, string_ok.2 rfl, rfl⟩⟩
        | [third] =>
            cases own
            have content := (params_given (canonical third (by simp))).2 content
            refine bind_ok.2 ⟨⟨some version, some method, some params, none⟩, ?_, rfl⟩
            refine ofItems_map.2 ⟨_, marked, ofItems_map.2 ⟨_, string_ok.2 rfl, ?_⟩⟩
            exact ofItems_map.2 ⟨_, content, rfl⟩
        | [third, fourth] =>
            have content := (params_given (canonical third (by simp))).2 content
            refine bind_ok.2 ⟨⟨some version, some method, some params, some id⟩, ?_, rfl⟩
            refine ofItems_map.2 ⟨_, marked, ofItems_map.2 ⟨_, string_ok.2 rfl, ?_⟩⟩
            exact ofItems_map.2 ⟨_, content, ofItems_map.2 ⟨_, id_given.2 own, rfl⟩⟩
        | _ :: _ :: _ :: _ => simp at short

/-- A value is a request exactly if it has one of the two forms, and it is the request whose members these
are. -/
theorem request_forms (canonical : tree.canonical = tree) (r : Request) :
    Request.decoder.convert tree = .ok r ↔ GivesRequest tree r := by
  rw [convert_ok]
  cases tree with
  | object members => exact request_of_object canonical
  | array items => exact request_of_array (items_canonical canonical)
  | _ => exact ⟨nofun, nofun⟩

theorem request_from_list :
    Request.decoder.convert (.array [.object [("2.0", .null)], .string "sum", .null, .ofNat 7]) =
      .ok ⟨some .v2, "sum", none, some (.number 7)⟩ :=
  (request_forms rfl _).2 (.array (by decide) .object .absent (.number 7))

end SocketRpc.Proofs.Rpc
