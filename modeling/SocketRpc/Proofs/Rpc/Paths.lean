import SocketRpc.Proofs.Decoding.Records
import SocketRpc.Proofs.Rpc.Params
import SocketRpc.Proofs.Rpc.Response
import SocketRpc.Proofs.Rpc.Version
import SocketRpc.Rpc.Request

/-!
# Messages from a text and from its value

Each message is decoded alike from a text and from the value of the text, as long as no object of the
text repeats a key. A repeated key tells the ways apart: a record refuses it, and the value of an object
keeps its last member.

* There is a lemma for each type of message, by the parts of its record.
* `paths_agree` is for all of them.
-/

namespace SocketRpc.Proofs.Rpc
open SocketRpc.Json SocketRpc.Proofs.Json SocketRpc.Proofs.Decoding

theorem agrees_id : Agrees Id.decoder :=
  agrees_whole "Id" fun tree _ id => by
    cases tree <;> exact .rfl

theorem agrees_params : Agrees Params.decoder :=
  agrees_whole "Params" fun tree _ params => by
    rw [ofTree_some, ofTree_some, canonical_canonical]

theorem agrees_code : Agrees ErrorCode.decoder :=
  agrees_map ErrorCode.ofCode agrees_int64

theorem regular_error : Regular RpcError.record where
  agree := by
    simp only [RpcError.record, List.forall_mem_cons]
    exact ⟨agrees_map _ agrees_code, agrees_map _ agrees_string, agrees_map _ (agrees_optional agrees_value),
      nofun⟩
  commute := by
    simp only [RpcError.record, List.pairwise_cons, List.forall_mem_cons]
    refine ⟨⟨?_, ?_, nofun⟩, ⟨?_, nofun⟩, nofun, .nil⟩
    all_goals exact commuting_map fun _ _ _ => rfl

theorem agrees_error : Agrees RpcError.decoder := agrees_record regular_error

theorem regular_request : Regular Request.record where
  agree := by
    simp only [Request.record, List.forall_mem_cons]
    exact ⟨agrees_map _ (agrees_optional agrees_version), agrees_map _ agrees_string,
      agrees_map _ (agrees_optional agrees_params), agrees_map _ (agrees_optional agrees_id), nofun⟩
  commute := by
    simp only [Request.record, List.pairwise_cons, List.forall_mem_cons]
    refine ⟨⟨?_, ?_, ?_, nofun⟩, ⟨?_, ?_, nofun⟩, ⟨?_, nofun⟩, nofun, .nil⟩
    all_goals exact commuting_map fun _ _ _ => rfl

theorem regular_success : Regular Success.record where
  agree := by
    simp only [Success.record, List.forall_mem_cons]
    exact ⟨agrees_map _ (agrees_optional agrees_version), agrees_map _ agrees_value,
      agrees_map _ (agrees_optional agrees_id), nofun⟩
  commute := by
    simp only [Success.record, List.pairwise_cons, List.forall_mem_cons]
    refine ⟨⟨?_, ?_, nofun⟩, ⟨?_, nofun⟩, nofun, .nil⟩
    all_goals exact commuting_map fun _ _ _ => rfl

theorem regular_failure : Regular Failure.record where
  agree := by
    simp only [Failure.record, List.forall_mem_cons]
    exact ⟨agrees_map _ (agrees_optional agrees_version), agrees_map _ agrees_error,
      agrees_map _ (agrees_optional agrees_id), nofun⟩
  commute := by
    simp only [Failure.record, List.pairwise_cons, List.forall_mem_cons]
    refine ⟨⟨?_, ?_, nofun⟩, ⟨?_, nofun⟩, nofun, .nil⟩
    all_goals exact commuting_map fun _ _ _ => rfl

theorem agrees_response : Agrees Response.decoder :=
  agrees_whole "Response" fun tree distinct response => by
    have success := (agrees_record regular_success).settles tree distinct
    have failure := (agrees_record regular_failure).settles tree distinct
    cases response with
    | success s =>
        rw [ofTree?_success, ofTree?_success]
        exact success s
    | failure f =>
        rw [ofTree?_failure, ofTree?_failure]
        exact and_congr (forall_congr' fun s => not_congr (success s)) (failure f)

/-- A type is decoded from this text exactly as from its value. -/
def PathsAgree {α : Type} (d : Decoder α) (text : List UInt8) : Prop :=
  ∀ x, d.decode text = .ok x ↔ ∃ value, Json.parse text = .ok value ∧ d.convert value = .ok x

theorem paths_agree (text : List UInt8) (h : Unrepeated text) :
    PathsAgree Request.decoder text ∧ PathsAgree Success.decoder text ∧ PathsAgree Failure.decoder text ∧
      PathsAgree Response.decoder text ∧ PathsAgree Params.decoder text ∧ PathsAgree Id.decoder text ∧
      PathsAgree RpcError.decoder text ∧ PathsAgree Version.decoder text :=
  ⟨decode_iff (agrees_record regular_request) h, decode_iff (agrees_record regular_success) h,
    decode_iff (agrees_record regular_failure) h, decode_iff agrees_response h, decode_iff agrees_params h,
    decode_iff agrees_id h, decode_iff agrees_error h, decode_iff agrees_version h⟩

theorem failure_from_text : Unrepeated (Failure.ofError (.ofCode .methodNotFound) none).toJson.write ∧
    Failure.decoder.decode (Failure.ofError (.ofCode .methodNotFound) none).toJson.write =
      .ok (.ofError (.ofCode .methodNotFound) none) := by
  generalize failure : Failure.ofError (.ofCode .methodNotFound) none = f
  have read : Json.read Json.maxDepth f.toJson.write = .ok (f.toJson, []) := by
    subst failure
    exact read_write ⟨trivial, ⟨trivial, trivial, trivial⟩, trivial, trivial⟩ (by decide)
  have distinct : Unrepeated f.toJson.write := by
    intro tree rest same
    cases read.symm.trans same
    subst failure
    refine ⟨by decide, trivial, ⟨by decide, trivial, trivial, trivial⟩, trivial, trivial⟩
  have converted : Failure.decoder.ofTree f.toJson.canonical = .ok f :=
    (failure_decoded ⟨-32601, by rw [← failure]; rfl⟩ (by subst failure; nofun)).1
  have parsed : Json.parse f.toJson.write = .ok f.toJson.canonical :=
    parse_ok.2 ⟨f.toJson, [], read, rfl, rfl⟩
  exact ⟨distinct, ((paths_agree _ distinct).2.2.1 f).2 ⟨_, parsed, convert_ok.2 converted⟩⟩

end SocketRpc.Proofs.Rpc
