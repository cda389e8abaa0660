import SocketRpc.Proofs.Client.Reply
import SocketRpc.Proofs.Rpc.Listing

/-!
# Replies that are no objects

A response is meant to be an object, and a request refuses all other replies but arrays that list a
success.

* `ListsReply` is such an array, with the id of the request or without an id.
* `unnamed_reply`: a reply that is no object is accepted exactly if it is such an array.
* `empty_array_accepted`: the empty array is one.
-/

namespace SocketRpc.Proofs.Client
open SocketRpc.Json SocketRpc.Framing SocketRpc.Proofs.Json SocketRpc.Proofs.Framing SocketRpc.Proofs.Rpc
open SocketRpc.Proofs.Decoding Ascii

variable {id : UInt64} {value : Json} {success : Success} {method : String} {params : Option Params}

/-- The reply is an array that lists a success with this id or without an id. -/
def ListsReply (id : UInt64) (value : Json) (success : Success) : Prop :=
  ∃ items, value = .array items ∧ ListsSuccess items success ∧
    (success.id = none ∨ success.id = some (.number id))

theorem accepts_listed (listed : ListsReply id value success) :
    Ticket.acceptResponse id value = .ok (.success success) := by
  obtain ⟨items, rfl, lists, own⟩ := listed
  have decoded : Response.ofTree? (.array items) = some (.success success) :=
    response_of_array.2 ⟨success, rfl, lists⟩
  exact acceptResponse_ok.2 ⟨response_ofTree.2 decoded, own⟩

theorem listed_of_accepted {r : Response} (unnamed : ∀ members, value ≠ .object members)
    (accepted : Ticket.acceptResponse id value = .ok r) :
    ∃ success, r = .success success ∧ ListsReply id value success := by
  obtain ⟨decoded, own⟩ := acceptResponse_ok.1 accepted
  have decoded := response_ofTree.1 decoded
  rcases response_shape decoded with ⟨members, object⟩ | ⟨items, rfl⟩
  · exact absurd object (unnamed members)
  · obtain ⟨success, rfl, lists⟩ := response_of_array.1 decoded
    exact ⟨success, rfl, items, rfl, lists, own⟩

theorem perform_request (s : Session) (network : Network) (named : method ≠ "")
    (reply : (s.client.exchange network (numberedText method params s.nextId)).answer = .ok value) :
    (s.perform network (.request method params)).2.1 =
      (Ticket.acceptResponse s.nextId value).map .response := by
  have begun : s.begin (.request method params) = .ok ({ s with nextId := s.nextId + 1 },
      ⟨numberedText method params s.nextId, some s.nextId⟩) := by
    simp only [Session.begin, Request.checked, if_neg named]
    rfl
  simp only [Session.perform, begun, reply, Ticket.complete]

/-- A request whose reply is no object fails because of an invalid response, unless the reply lists a
success. Exactly then it gives that success. -/
theorem unnamed_reply (s : Session) (network : Network) (named : method ≠ "")
    (reply : (s.client.exchange network (numberedText method params s.nextId)).answer = .ok value)
    (unnamed : ∀ members, value ≠ .object members) :
    (∀ answer, (s.perform network (.request method params)).2.1 = .ok answer ↔
      ∃ success, ListsReply s.nextId value success ∧ answer = .response (.success success)) ∧
    ((∀ success, ¬ ListsReply s.nextId value success) →
      ∃ reason, (s.perform network (.request method params)).2.1 = .error (.invalidResponse reason)) := by
  rw [perform_request s network named reply]
  constructor
  · intro answer
    constructor
    · intro answered
      obtain ⟨r, accepted, rfl⟩ := map_ok.1 answered
      obtain ⟨success, rfl, listed⟩ := listed_of_accepted unnamed accepted
      exact ⟨success, listed, rfl⟩
    · rintro ⟨success, listed, rfl⟩
      rw [accepts_listed listed]
      rfl
  · intro unlisted
    rcases acceptResponse_cases s.nextId value with ⟨r, -, -, accepted⟩ | ⟨reason, refused⟩
    · obtain ⟨success, -, listed⟩ := listed_of_accepted unnamed accepted
      exact absurd listed (unlisted success)
    · exact ⟨reason, by rw [refused]; rfl⟩

theorem numbers_refused : ∃ reason,
    ((Session.start ⟨"localhost", 80, {}, rfl⟩).perform (answering (Json.array [.ofNat 1, .ofNat 2]).write)
      (.request "sum" none)).2.1 = .error (.invalidResponse reason) := by
  have reply := exchange_answering ⟨"localhost", 80, {}, rfl⟩ [.ofNat 1, .ofNat 2]
    (numberedText "sum" none 1) ⟨trivial, trivial, trivial⟩ (by decide) (by decide +kernel)
  refine (unnamed_reply (Session.start ⟨"localhost", 80, {}, rfl⟩) _ (by decide) reply nofun).2 ?_
  rintro success ⟨items, same, lists, -⟩
  cases same
  cases lists with
  | result given => cases given

/-- The empty array is decoded, and accepted as a reply, as a success without a version and an id, whose
result is null. -/
theorem empty_array_accepted :
    Json.parse (Utf8.bytes "[]") = .ok (.array []) ∧
    Response.decoder.convert (.array []) = .ok (.success ⟨none, .null, none⟩) ∧
    ((Session.start ⟨"localhost", 80, {}, rfl⟩).perform (answering (Json.array []).write)
      (.request "sum" none)).2.1 = .ok (.response (.success ⟨none, .null, none⟩)) := by
  have reply := exchange_answering ⟨"localhost", 80, {}, rfl⟩ [] (numberedText "sum" none 1) trivial
    (by decide) (by decide +kernel)
  have accepted : Ticket.acceptResponse 1 (.array []) = .ok (.success ⟨none, .null, none⟩) :=
    accepts_listed ⟨[], rfl, .nothing, .inl rfl⟩
  refine ⟨rfl, convert_ok.2 (acceptResponse_ok.1 accepted).1, ?_⟩
  exact (perform_request (Session.start ⟨"localhost", 80, {}, rfl⟩) _ (by decide) reply).trans
    (congrArg (Except.map _) accepted)

end SocketRpc.Proofs.Client
