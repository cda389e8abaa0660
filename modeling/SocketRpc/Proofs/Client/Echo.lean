import SocketRpc.Proofs.Client.Reply
import SocketRpc.Proofs.Rpc.Request

namespace SocketRpc.Proofs.Client
open SocketRpc.Json SocketRpc.Framing SocketRpc.Proofs.Json SocketRpc.Proofs.Framing SocketRpc.Proofs.Rpc
open Ascii

variable {method : String} {params : Option Params}

def callMembers (method : String) (params : Option Params) : List (String × Json) :=
  ("method", .string method) :: (params.map fun params => ("params", params.toJson)).toList

theorem bare_toJson (method : String) (params : Option Params) :
    (Request.bare method params).toJson = .object (callMembers method params) := by
  simp [Request.toJson, Request.bare, callMembers]

theorem bare_canonical (h : ∀ given, params = some given → given.toJson.canonical = given.toJson) :
    (Request.bare method params).toJson.canonical = (Request.bare method params).toJson := by
  rw [bare_toJson]
  cases params with
  | none => rfl
  | some given =>
      change Json.object [("method", .string method), ("params", given.toJson.canonical)] = _
      rw [h given rfl]
      rfl

theorem bare_denotes (h : ∀ given, params = some given → Carried 1 given.toJson) :
    Denotes (Request.bare method params).toJson.write (Request.bare method params).toJson := by
  obtain ⟨integral, shallow⟩ := request_written (r := .bare method params) h
  have denotes := denotes_of_read (read_write integral shallow)
  rwa [bare_canonical fun given same => (h given same).canonical] at denotes

/-- A call gives its own members back, if the peer sends back the bytes it has received. -/
theorem call_echoes (s : Session) (network : Network) {peer : Peer} {stream : Stream} {after : List UInt8}
    (named : method ≠ "") (carried : ∀ given, params = some given → Carried 1 given.toJson)
    (accepts : network s.client.host s.client.port = .accepted peer)
    (answers : stream = peer (Request.bare method params).toJson.write s.client.settings.shutdownWrite)
    (allowed : (Request.bare method params).toJson.write.length ≤ s.client.settings.maxResponseSize)
    (nonempty : [] ∉ stream.chunks)
    (echo : stream.chunks.flatten = (Request.bare method params).toJson.write ++ after) :
    (s.perform network (.call method params)).2 =
      (.ok (.value (.object (callMembers method params))),
        some (Request.bare method params).toJson.write) := by
  have begun : s.begin (.call method params) = .ok (s, ⟨(Request.bare method params).toJson.write, none⟩) := by
    simp only [Session.begin, Request.checked, if_neg named]
    rfl
  have received : s.client.receive stream = .ok (Request.bare method params).toJson :=
    receive_opened s.client (.inr (.inl rfl)) (bare_denotes carried) nonempty echo allowed
  subst answers
  simp only [Session.perform, begun, Client.exchange, accepts, received, Ticket.complete]
  rw [bare_toJson]

theorem quoted_call_echoes :
    let params := Params.array [.ofNat 1]
    ((Session.start ⟨"localhost", 80, {}, rfl⟩).perform
      (fun _ _ => .accepted fun request _ => ⟨[request.take 12, request.drop 12 ++ [quote]], .wait⟩)
      (.call "\"\n" (some params))).2 =
        (.ok (.value (.object [("method", .string "\"\n"), ("params", params.toJson)])),
          some (Request.bare "\"\n" (some params)).toJson.write) := by
  intro params
  have carried : ∀ given, some params = some given → Carried 1 given.toJson := by
    intro given same
    cases same
    exact ⟨rfl, ⟨trivial, trivial⟩, by decide⟩
  refine call_echoes (Session.start ⟨"localhost", 80, {}, rfl⟩) _ (by decide) carried rfl rfl ?_ ?_
    (show _ = _ ++ [quote] from ?_) <;> decide +kernel

end SocketRpc.Proofs.Client
