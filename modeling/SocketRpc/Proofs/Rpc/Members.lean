import SocketRpc.Proofs.Decoding.Lookup
import SocketRpc.Proofs.Rpc.Listing
import SocketRpc.Proofs.Rpc.Paths

namespace SocketRpc.Proofs.Rpc
open SocketRpc.Json SocketRpc.Proofs.Json SocketRpc.Proofs.Decoding

variable {tree : Json} {members : List (String × Json)} {items : List Json}

theorem members_canonical (canonical : (Json.object members).canonical = .object members) :
    (members.map Prod.fst).Nodup ∧ ∀ m ∈ members, m.2.canonical = m.2 := by
  refine ⟨(distinct_of_canonical canonical).1, fun m member => ?_⟩
  simp only [Json.canonical, Json.object.injEq] at canonical
  rw [← canonical] at member
  obtain ⟨original, -, rfl⟩ := mem_canonicalMembers member
  exact canonical_canonical original.2

theorem items_canonical (canonical : (Json.array items).canonical = .array items) :
    ∀ item ∈ items, item.canonical = item := by
  simp only [Json.canonical, canonicalItems_eq_map, Json.array.injEq] at canonical
  exact List.map_inj_left.1 (canonical.trans (List.map_id items).symm)

theorem lookup_canonical {key : String} (canonical : (Json.object members).canonical = .object members)
    (found : members.lookup key = some tree) : tree.canonical = tree :=
  (members_canonical canonical).2 _ (mem_of_lookup found)

theorem memberOf_canonical (key : String) (canonical : (Json.object members).canonical = .object members) :
    (memberOf key members).canonical = memberOf key members := by
  unfold memberOf
  cases found : members.lookup key with
  | none => rfl
  | some tree => exact lookup_canonical canonical found

theorem int64_ok {n : Int64} : Decoder.int64.ofTree tree = .ok n ↔ tree = .ofInt n := by
  constructor
  · intro decoded
    cases tree with
    | number number =>
        cases number with
        | double => cases decoded
        | integer value fits =>
            simp only [Decoder.int64, Decoder.scalar] at decoded
            split at decoded <;> cases decoded
            next small =>
              have same : (Int64.ofInt value).toInt = value := Int64.toInt_ofInt_of_le fits.1 small
              simp only [Json.ofInt, same]
    | _ => cases decoded
  · rintro rfl
    have small : n.toInt < 0x8000000000000000 := Int64.toInt_lt n
    simp [Decoder.int64, Decoder.scalar, Json.ofInt, small]

theorem code_ok {code : ErrorCode} :
    ErrorCode.decoder.ofTree tree = .ok code ↔ ∃ n, tree = .ofInt n ∧ .ofCode n = code := by
  simp only [ErrorCode.decoder, map_ofTree, int64_ok]

theorem string_ok {s : String} : Decoder.string.ofTree tree = .ok s ↔ tree = .string s := by
  cases tree with
  | string text =>
      constructor
      · intro decoded
        cases decoded
        rfl
      · intro same
        cases same
        rfl
  | _ => exact ⟨nofun, nofun⟩

theorem data_ok {data : Option Json} (canonical : tree.canonical = tree) :
    Decoder.value.optional.ofTree tree = .ok data ↔ presentData tree = data := by
  have read : Decoder.value.optional.ofTree tree = .ok (presentData tree) := by
    by_cases null : tree = .null
    · subst null
      rfl
    · rw [optional_ofTree null, presentData_of_ne null]
      exact map_ok.2 ⟨tree, congrArg Except.ok canonical, rfl⟩
  rw [read, Except.ok.injEq]

theorem required_ok {α : Type} {name : String} {given : Option α} {x : α} :
    Field.required name given = .ok x ↔ given = some x := by
  cases given with
  | none => exact ⟨nofun, nofun⟩
  | some y => simp [Field.required]

inductive GivesError : Json → RpcError → Prop
  | object {fields : List (String × Json)} {code : Int64} {message : String}
      (keys : fields.map Prod.fst ⊆ ["code", "message", "data"])
      (number : fields.lookup "code" = some (.ofInt code))
      (text : fields.lookup "message" = some (.string message)) :
      GivesError (.object fields) ⟨.ofCode code, message, presentData (memberOf "data" fields)⟩
  | array (code : Int64) (message : String) (data : Json) :
      GivesError (.array [.ofInt code, .string message, data]) ⟨.ofCode code, message, presentData data⟩

theorem error_filled {draft : RpcError.Draft} :
    Fills members RpcError.record.fields RpcError.record.empty draft ↔
      Given ErrorCode.decoder (members.lookup "code") draft.code ∧
      Given Decoder.string (members.lookup "message") draft.message ∧
      Given Decoder.value.optional (members.lookup "data") draft.data := by
  simp only [RpcError.record, fills_map, fills_nil]
  constructor
  · rintro ⟨code, number, message, text, data, content, rfl⟩
    cases code <;> cases message <;> cases data <;> exact ⟨number, text, content⟩
  · rintro ⟨number, text, content⟩
    refine ⟨_, number, _, text, _, content, ?_⟩
    obtain ⟨code, message, data⟩ := draft
    cases code <;> cases message <;> cases data <;> rfl

theorem error_of_object {e : RpcError} (canonical : (Json.object members).canonical = .object members) :
    RpcError.decoder.ofTree (.object members) = .ok e ↔ GivesError (.object members) e := by
  have data_canonical := memberOf_canonical "data" canonical
  rw [RpcError.decoder, record_of_object regular_error (by decide) (members_canonical canonical).1]
  constructor
  · rintro ⟨keys, ⟨code, message, data⟩, fills, built⟩
    obtain ⟨number, text, content⟩ := error_filled.1 fills
    obtain ⟨_, given, built⟩ := bind_ok.1 built
    cases required_ok.1 given
    obtain ⟨_, given, built⟩ := bind_ok.1 built
    cases required_ok.1 given
    cases built
    obtain ⟨_, foundCode, decoded⟩ := given_some.1 number
    obtain ⟨n, rfl, rfl⟩ := code_ok.1 decoded
    obtain ⟨_, foundMessage, decoded⟩ := given_some.1 text
    cases string_ok.1 decoded
    rw [← (data_ok data_canonical).1 (given_optional.1 ⟨data, content, rfl⟩)]
    exact .object keys foundCode foundMessage
  · intro given
    cases given with
    | @object _ n message keys foundCode foundMessage =>
        obtain ⟨data, content, same⟩ := given_optional.2 ((data_ok data_canonical).2 rfl)
        have number : Given ErrorCode.decoder (members.lookup "code") (some (.ofCode n)) :=
          given_some.2 ⟨_, foundCode, code_ok.2 ⟨n, rfl, rfl⟩⟩
        have text : Given Decoder.string (members.lookup "message") (some message) :=
          given_some.2 ⟨_, foundMessage, string_ok.2 rfl⟩
        rw [← same]
        refine ⟨keys, ⟨some (.ofCode n), some message, data⟩, ?_, rfl⟩
        exact error_filled.2 ⟨number, text, content⟩

theorem error_of_array {e : RpcError} (canonical : ∀ item ∈ items, item.canonical = item) :
    RpcError.decoder.ofTree (.array items) = .ok e ↔ GivesError (.array items) e := by
  constructor
  · intro decoded
    obtain ⟨draft, made, built⟩ := bind_ok.1 decoded
    match items with
    | [] => cases made
    | [_] =>
        obtain ⟨_, _, made⟩ := ofItems_cons.1 made
        cases made
    | [_, _] =>
        obtain ⟨_, _, made⟩ := ofItems_cons.1 made
        obtain ⟨_, _, made⟩ := ofItems_cons.1 made
        cases made
    | first :: second :: third :: rest =>
        obtain ⟨_, decoded, made⟩ := ofItems_cons.1 made
        obtain ⟨_, number, rfl⟩ := map_ofTree.1 decoded
        obtain ⟨n, rfl, rfl⟩ := code_ok.1 number
        obtain ⟨_, decoded, made⟩ := ofItems_cons.1 made
        obtain ⟨message, text, rfl⟩ := map_ofTree.1 decoded
        obtain rfl := string_ok.1 text
        obtain ⟨_, decoded, made⟩ := ofItems_cons.1 made
        obtain ⟨_, content, rfl⟩ := map_ofTree.1 decoded
        obtain rfl := (data_ok (canonical third (by simp))).1 content
        cases rest with
        | nil =>
            cases made
            cases built
            exact .array n message third
        | cons => cases made
  · intro given
    cases given with
    | array n message data =>
        have number : ErrorCode.decoder.ofTree (.ofInt n) = .ok (.ofCode n) := code_ok.2 ⟨n, rfl, rfl⟩
        have content := (data_ok (canonical data (by simp))).2 rfl
        refine bind_ok.2 ⟨⟨some (.ofCode n), some message, some (presentData data)⟩, ?_, rfl⟩
        refine ofItems_cons.2 ⟨_, map_ofTree.2 ⟨_, number, rfl⟩, ?_⟩
        refine ofItems_cons.2 ⟨_, map_ofTree.2 ⟨message, rfl, rfl⟩, ?_⟩
        exact ofItems_cons.2 ⟨_, map_ofTree.2 ⟨_, content, rfl⟩, rfl⟩

theorem error_given {e : RpcError} (canonical : tree.canonical = tree) :
    RpcError.decoder.ofTree tree = .ok e ↔ GivesError tree e := by
  cases tree with
  | object members => exact error_of_object canonical
  | array items => exact error_of_array (items_canonical canonical)
  | _ => exact ⟨nofun, nofun⟩

theorem success_filled {draft : Success.Draft} :
    Fills members Success.record.fields Success.record.empty draft ↔
      Given Version.decoder.optional (members.lookup "jsonrpc") draft.version ∧
      Given Decoder.value (members.lookup "result") draft.result ∧
      Given Id.decoder.optional (members.lookup "id") draft.id := by
  simp only [Success.record, fills_map, fills_nil]
  constructor
  · rintro ⟨version, name, result, content, id, own, rfl⟩
    cases version <;> cases result <;> cases id <;> exact ⟨name, content, own⟩
  · rintro ⟨name, content, own⟩
    refine ⟨_, name, _, content, _, own, ?_⟩
    obtain ⟨version, result, id⟩ := draft
    cases version <;> cases result <;> cases id <;> rfl

theorem failure_filled {draft : Failure.Draft} :
    Fills members Failure.record.fields Failure.record.empty draft ↔
      Given Version.decoder.optional (members.lookup "jsonrpc") draft.version ∧
      Given RpcError.decoder (members.lookup "error") draft.error ∧
      Given Id.decoder.optional (members.lookup "id") draft.id := by
  simp only [Failure.record, fills_map, fills_nil]
  constructor
  · rintro ⟨version, name, error, content, id, own, rfl⟩
    cases version <;> cases error <;> cases id <;> exact ⟨name, content, own⟩
  · rintro ⟨name, content, own⟩
    refine ⟨_, name, _, content, _, own, ?_⟩
    obtain ⟨version, error, id⟩ := draft
    cases version <;> cases error <;> cases id <;> rfl

theorem success_of_object {s : Success} (canonical : (Json.object members).canonical = .object members) :
    Success.decoder.ofTree (.object members) = .ok s ↔
      members.map Prod.fst ⊆ ["jsonrpc", "result", "id"] ∧ GivesVersion (memberOf "jsonrpc" members) s.version ∧
        memberOf "result" members = s.result ∧ GivesId (memberOf "id" members) s.id := by
  have result_canonical := memberOf_canonical "result" canonical
  obtain ⟨version, result, id⟩ := s
  rw [← version_given, ← id_given, ← result_canonical, memberOf, memberOf, memberOf, ← given_value,
    ← given_optional, ← given_optional]
  rw [Success.decoder, record_of_object regular_success (by decide) (members_canonical canonical).1]
  constructor
  · rintro ⟨keys, draft, fills, built⟩
    obtain ⟨name, content, own⟩ := success_filled.1 fills
    cases built
    exact ⟨keys, ⟨_, name, rfl⟩, ⟨_, content, rfl⟩, _, own, rfl⟩
  · rintro ⟨keys, ⟨version, name, rfl⟩, ⟨result, content, rfl⟩, id, own, rfl⟩
    exact ⟨keys, ⟨version, result, id⟩, success_filled.2 ⟨name, content, own⟩, rfl⟩

theorem failure_of_object {f : Failure} (canonical : (Json.object members).canonical = .object members) :
    Failure.decoder.ofTree (.object members) = .ok f ↔
      members.map Prod.fst ⊆ ["jsonrpc", "error", "id"] ∧ GivesVersion (memberOf "jsonrpc" members) f.version ∧
        (∃ error, members.lookup "error" = some error ∧ GivesError error f.error) ∧
        GivesId (memberOf "id" members) f.id := by
  obtain ⟨version, e, id⟩ := f
  rw [← version_given, ← id_given, memberOf, memberOf, ← given_optional, ← given_optional]
  rw [Failure.decoder, record_of_object regular_failure (by decide) (members_canonical canonical).1]
  constructor
  · rintro ⟨keys, ⟨version, error, id⟩, fills, built⟩
    obtain ⟨name, content, own⟩ := failure_filled.1 fills
    obtain ⟨_, given, built⟩ := bind_ok.1 built
    cases required_ok.1 given
    cases built
    obtain ⟨tree, found, decoded⟩ := given_some.1 content
    have given := (error_given (lookup_canonical canonical found)).1 decoded
    exact ⟨keys, ⟨_, name, rfl⟩, ⟨tree, found, given⟩, _, own, rfl⟩
  · rintro ⟨keys, ⟨version, name, rfl⟩, ⟨tree, found, given⟩, id, own, rfl⟩
    have content : Given RpcError.decoder (members.lookup "error") (some e) :=
      given_some.2 ⟨tree, found, (error_given (lookup_canonical canonical found)).2 given⟩
    exact ⟨keys, ⟨version, some e, id⟩, failure_filled.2 ⟨name, content, own⟩, rfl⟩

theorem response_of_object (canonical : (Json.object members).canonical = .object members) (r : Response) :
    Response.decoder.convert (.object members) = .ok r ↔
      ∃ version id, GivesVersion (memberOf "jsonrpc" members) version ∧ GivesId (memberOf "id" members) id ∧
        ((members.map Prod.fst ⊆ ["jsonrpc", "result", "id"] ∧
            r = .success ⟨version, memberOf "result" members, id⟩) ∨
          (members.map Prod.fst ⊆ ["jsonrpc", "error", "id"] ∧
            ∃ error e, members.lookup "error" = some error ∧ GivesError error e ∧
              r = .failure ⟨version, e, id⟩)) := by
  rw [convert_ok, response_ofTree]
  cases r with
  | success s =>
      rw [ofTree?_success, success_of_object canonical]
      constructor
      · rintro ⟨keys, version, result, id⟩
        exact ⟨_, _, version, id, .inl ⟨keys, by rw [result]⟩⟩
      · rintro ⟨_, _, version, id, ⟨keys, same⟩ | ⟨-, _, _, -, -, same⟩⟩
        · cases same
          exact ⟨keys, version, rfl, id⟩
        · cases same
  | failure f =>
      have first : (∀ s, Success.decoder.ofTree (.object members) ≠ .ok s) ∧
          Failure.decoder.ofTree (.object members) = .ok f ↔ Failure.decoder.ofTree (.object members) = .ok f :=
        and_iff_right_of_imp object_exclusive
      rw [ofTree?_failure, first, failure_of_object canonical]
      constructor
      · rintro ⟨keys, version, ⟨error, found, given⟩, id⟩
        exact ⟨_, _, version, id, .inr ⟨keys, error, _, found, given, rfl⟩⟩
      · rintro ⟨_, _, version, id, ⟨-, same⟩ | ⟨keys, error, _, found, given, same⟩⟩
        · cases same
        · cases same
          exact ⟨keys, version, ⟨error, found, given⟩, id⟩

theorem failure_from_members :
    Response.decoder.convert (.object [("error", .object [("code", .ofInt (-32601)), ("data", .null),
      ("message", .string "?")]), ("id", .null)]) = .ok (.failure ⟨none, ⟨.methodNotFound, "?", none⟩, none⟩) := by
  have given : GivesError (.object [("code", .ofInt (-32601)), ("data", .null), ("message", .string "?")])
      ⟨.ofCode (-32601), "?", none⟩ := .object (by decide) rfl rfl
  refine (response_of_object rfl _).2 ⟨none, none, .absent, .absent, .inr ⟨by decide, ?_⟩⟩
  exact ⟨_, _, rfl, given, rfl⟩

end SocketRpc.Proofs.Rpc
