import SocketRpc.Proofs.Decoding.Depth
import SocketRpc.Proofs.Rpc.Paths

namespace SocketRpc.Proofs.Rpc
open SocketRpc.Json SocketRpc.Proofs.Json SocketRpc.Proofs.Decoding

variable {σ : Type}

theorem params_decoded {params : Params} (f : Option Params → σ → σ)
    (h : params.toJson.canonical = params.toJson) :
    (Params.decoder.optional.map f).ofTree params.toJson = .ok (f (some params)) := by
  have read : Params.ofTree? params.toJson = some params := ofTree_some.2 h
  have present : params.toJson ≠ .null := by
    intro null
    cases params <;> cases null
  have decoded : Params.decoder.ofTree params.toJson = .ok params := by
    simp only [Params.decoder, Decoder.whole, read]
  exact map_ok.2 ⟨some params, (optional_ofTree present).trans (map_ok.2 ⟨params, decoded, rfl⟩), rfl⟩

theorem request_decoded {r : Request}
    (h : ∀ params, r.params = some params → params.toJson.canonical = params.toJson) :
    Request.decoder.ofTree r.toJson = .ok r := by
  obtain ⟨version, method, params, id⟩ := r
  -- Each member takes the next field, or leaves it to the members after it.
  have made : Request.record.ofMembers Request.record.fields Request.record.empty
      ((version.map fun version => ("jsonrpc", version.toJson)).toList ++
        ("method", .string method) :: ((params.map fun params => ("params", params.toJson)).toList ++
          ((id.map fun id => ("id", id.toJson)).toList ++ []))) =
      .ok ⟨version.map some, some method, params.map some, id.map some⟩ := by
    refine ofMembers_optional version (fun version _ => version_decoded version _) ?_ ?_
    · have method : "jsonrpc" ≠ "method" := by decide
      have params : "jsonrpc" ≠ "params" := by decide
      have id : "jsonrpc" ≠ "id" := by decide
      refine List.forall_mem_cons.2 ⟨method, List.forall_mem_append.2 ⟨?_, ?_⟩⟩
      · exact forall_optional fun _ _ => params
      · exact List.forall_mem_append.2 ⟨forall_optional fun _ _ => id, nofun⟩
    rw [ofMembers_taken Request.record rfl (message_decoded method _)]
    refine ofMembers_optional params (fun params given => params_decoded _ (h params given)) ?_ ?_
    · have id : "params" ≠ "id" := by decide
      exact List.forall_mem_append.2 ⟨forall_optional fun _ _ => id, nofun⟩
    refine ofMembers_optional id (fun id _ => id_decoded (some id) _) nofun ?_
    cases version <;> cases params <;> cases id <;> rfl
  have built : Request.record.build ⟨version.map some, some method, params.map some, id.map some⟩ =
      .ok ⟨version, method, params, id⟩ := by
    cases version <;> cases params <;> cases id <;> rfl
  refine bind_ok.2 ⟨_, ?_, built⟩
  simpa using made

theorem members_of_request {P : Json → Prop} {r : Request} (text : ∀ s, P (.string s))
    (id : ∀ id : Id, P id.toJson) (params : ∀ params, r.params = some params → P params.toJson) :
    ∃ members, r.toJson = .object members ∧ ∀ m ∈ members, P m.2 := by
  refine ⟨_, rfl, ?_⟩
  refine List.forall_mem_append.2 ⟨List.forall_mem_append.2 ⟨List.forall_mem_append.2 ⟨?_, ?_⟩, ?_⟩, ?_⟩
  · exact forall_optional fun version _ => text _
  · exact List.forall_mem_singleton.2 (text _)
  · exact forall_optional fun given same => params given same
  · exact forall_optional fun given _ => id given

theorem request_integral {r : Request} (h : ∀ params, r.params = some params → Integral params.toJson) :
    Integral r.toJson := by
  obtain ⟨members, same, each⟩ := members_of_request (P := Integral) (fun _ => trivial)
    (fun id => (idMember_flat (some id)).1) h
  rw [same]
  exact integralMembers_iff.2 each

theorem request_depth {r : Request} {n : Nat} :
    r.toJson.depth ≤ n + 1 ↔ ∀ params, r.params = some params → params.toJson.depth ≤ n := by
  constructor
  · intro shallow params given
    have each := depthMembers_le.1 (Nat.le_of_succ_le_succ shallow)
    exact each ("params", params.toJson) (by simp [given])
  · intro shallow
    obtain ⟨members, same, each⟩ := members_of_request (P := fun value => value.depth ≤ n)
      (fun _ => Nat.zero_le n) (fun id => (idMember_flat (some id)).2 ▸ Nat.zero_le n) shallow
    rw [same]
    exact Nat.succ_le_succ (depthMembers_le.2 each)

theorem request_written {r : Request} (h : ∀ params, r.params = some params → Carried 1 params.toJson) :
    Integral r.toJson ∧ r.toJson.depth ≤ maxDepth :=
  ⟨request_integral fun params given => (h params given).integral,
    request_depth.2 fun params given => Nat.le_of_succ_le_succ (h params given).depth⟩

/-- The compact text of a request decodes to the request and to nothing else, and only as long as its
parameters leave room for the request around them. -/
theorem request_text_iff {r other : Request}
    (canonical : ∀ params, r.params = some params → params.toJson.canonical = params.toJson)
    (integral : ∀ params, r.params = some params → Integral params.toJson) :
    Request.decoder.decode r.toJson.write = .ok other ↔
      other = r ∧ ∀ params, r.params = some params → params.toJson.depth < maxDepth := by
  have reads := (agrees_record regular_request).reads maxDepth r.toJson.write
  have written := request_integral integral
  have decoded := request_decoded canonical
  rw [decode_ok]
  constructor
  · rintro ⟨rest, direct, -⟩
    obtain ⟨tree, read, made⟩ := (reads other rest).1 direct
    obtain ⟨shallow, rfl, -⟩ := (read_written written).1 read
    cases made.symm.trans decoded
    exact ⟨rfl, fun params given => Nat.lt_succ_of_le (request_depth.1 shallow params given)⟩
  · rintro ⟨rfl, shallow⟩
    have fits := request_depth.2 fun params given => Nat.le_of_lt_succ (shallow params given)
    exact ⟨[], (reads other []).2 ⟨_, read_write written fits, decoded⟩, rfl⟩

theorem request_from_text (r : Request) (h : ∀ params, r.params = some params → Carried 1 params.toJson) :
    Request.decoder.decode r.toJson.write = .ok r := by
  obtain ⟨integral, shallow⟩ := request_written h
  have direct := ((agrees_record regular_request).reads maxDepth r.toJson.write r []).2
    ⟨r.toJson, read_write integral shallow, request_decoded fun params given => (h params given).canonical⟩
  exact decode_ok.2 ⟨[], direct, rfl⟩

theorem call_from_text :
    let params := Params.map [("a", .array [.ofNat 1, .null]), ("b", .ofInt (-1))]
    let request := Request.call "sum" (some params) (.text "1")
    Carried 1 params.toJson ∧ Request.decoder.decode request.toJson.write = .ok request := by
  intro params request
  have carried : Carried 1 params.toJson := ⟨rfl, ⟨⟨trivial, trivial, trivial⟩, trivial, trivial⟩, by decide⟩
  refine ⟨carried, request_from_text request fun given same => ?_⟩
  cases same
  exact carried

end SocketRpc.Proofs.Rpc
