import SocketRpc.Proofs.Rpc.Paths

namespace SocketRpc.Proofs.Rpc
open SocketRpc.Json SocketRpc.Proofs.Json SocketRpc.Proofs.Decoding

theorem idMember_distinct (id : Option Id) : Distinct (idMember id).2 := by
  rcases id with _ | _ | _ <;> trivial

theorem versionMember_distinct {version : Option Version} {members : List (String × Json)}
    (other : "jsonrpc" ∉ members.map Prod.fst) (distinct : Distinct (.object members)) :
    Distinct (.object (versionMember version ++ members)) := by
  obtain ⟨nodup, values⟩ := distinct
  cases version with
  | none => exact ⟨nodup, values⟩
  | some version => exact ⟨List.nodup_cons.2 ⟨other, nodup⟩, trivial, values⟩

theorem error_distinct {e : RpcError} (h : ∀ data, e.data = some data → Distinct data) : Distinct e.toJson := by
  obtain ⟨code, message, data⟩ := e
  have keys : ["code", "message", "data"].Nodup := by decide
  cases data with
  | none => exact ⟨keys.sublist (List.sublist_append_left ["code", "message"] ["data"]), trivial, trivial, trivial⟩
  | some data => exact ⟨keys, trivial, trivial, h data rfl, trivial⟩

theorem distinct_toJson {r : Response} (h : Legible r) : Distinct r.toJson := by
  cases r with
  | success s =>
      have keys : ["jsonrpc", "result", "id"].Nodup := by decide
      obtain ⟨other, keys⟩ := List.nodup_cons.1 keys
      have result := distinct_of_canonical h.canonical
      exact versionMember_distinct other ⟨keys, result, idMember_distinct s.id, trivial⟩
  | failure f =>
      have keys : ["jsonrpc", "error", "id"].Nodup := by decide
      obtain ⟨other, keys⟩ := List.nodup_cons.1 keys
      have error := error_distinct fun data present => distinct_of_canonical (h.2 data present).canonical
      exact versionMember_distinct other ⟨keys, error, idMember_distinct f.id, trivial⟩

/-- Decoding the compact text of a response gives the response, directly and by way of its value, if it
has no doubles and is not too deep. Only data that is null is not told from no data. -/
theorem response_from_text (r : Response) (h : Legible r) :
    Response.decoder.decode r.toJson.write = .ok (received r) ∧
    (∃ value, Json.parse r.toJson.write = .ok value ∧ Response.decoder.convert value = .ok (received r)) ∧
    ((∀ f, r = .failure f → f.error.data ≠ some .null) → received r = r) ∧
    ∀ f, r = .failure f → f.error.data = some .null →
      received r = .failure { f with error := { f.error with data := none } } := by
  have read : Json.read maxDepth r.toJson.write = .ok (r.toJson, []) :=
    read_write (integral_toJson h) (depth_toJson h)
  have unrepeated : Unrepeated r.toJson.write := by
    intro tree rest same
    cases read.symm.trans same
    exact distinct_toJson h
  have parsed : Json.parse r.toJson.write = .ok r.toJson.canonical :=
    parse_ok.2 ⟨r.toJson, [], read, rfl, rfl⟩
  have converted : Response.decoder.convert r.toJson.canonical = .ok (received r) := by
    rw [convert_ok]
    simp only [Response.decoder, Decoder.whole, response_received h]
  have decoded := (decode_iff agrees_response unrepeated _).2 ⟨_, parsed, converted⟩
  refine ⟨decoded, ⟨_, parsed, converted⟩, received_same, ?_⟩
  rintro f rfl null
  exact received_null null

theorem null_data_from_text :
    let r := Response.failure ⟨none, ⟨.methodNotFound, "no sum", some .null⟩, none⟩
    Legible r ∧ Response.decoder.decode r.toJson.write =
      .ok (.failure ⟨none, ⟨.methodNotFound, "no sum", none⟩, none⟩) := by
  intro r
  have legible : Legible r := by
    refine ⟨⟨-32601, rfl⟩, fun data present => ?_⟩
    cases present
    exact ⟨rfl, trivial, by decide⟩
  exact ⟨legible, (response_from_text r legible).1⟩

end SocketRpc.Proofs.Rpc
