import SocketRpc.Proofs.Client.Correlation
import SocketRpc.Proofs.Framing.Delimited
import SocketRpc.Proofs.Rpc.Response

namespace SocketRpc.Proofs.Client
open SocketRpc.Json SocketRpc.Framing SocketRpc.Proofs.Json SocketRpc.Proofs.Framing SocketRpc.Proofs.Rpc
open Ascii

def Written (text : List UInt8) (tree : Json) : Prop := text = tree.write ∨ text = tree.pretty

theorem written_spells {text : List UInt8} {tree : Json} (h : Written text tree) (integral : Integral tree) :
    Spells text tree := by
  rcases h with rfl | rfl
  · exact spells_write tree integral
  · exact spells_pretty tree integral

theorem written_opens {text : List UInt8} {r : Response} (h : Written text r.toJson) :
    ∃ more, text = openBrace :: more := by
  have object : ∃ members, r.toJson = .object members := by
    cases r <;> exact ⟨_, rfl⟩
  obtain ⟨members, object⟩ := object
  rw [Written, object] at h
  rcases h with rfl | rfl
  · exact ⟨_, rfl⟩
  · cases members with
    | nil => exact ⟨_, rfl⟩
    | cons member members => exact ⟨_, rfl⟩

theorem written_denotes {text : List UInt8} {r : Response} (h : Written text r.toJson) (faithful : Faithful r) :
    Denotes text r.toJson.canonical := by
  have reads := (written_spells h (integral_toJson faithful.legible)).reads Json.maxDepth [] []
    (by simpa using depth_toJson faithful.legible) (by simp)
  rw [List.append_nil] at reads
  exact denotes_of_read reads

theorem receive_opened (client : Client) {s : Stream} {first : UInt8} {more after : List UInt8} {value : Json}
    (opens : Opens first) (denotes : Denotes (first :: more) value) (nonempty : [] ∉ s.chunks)
    (stream : sent s = first :: more ++ after)
    (allowed : (first :: more).length ≤ client.settings.maxResponseSize) : client.receive s = .ok value := by
  obtain ⟨chunks, last, ahead, course⟩ :=
    readReply_course client.settings.maxResponseSize client.settings_positive.1 nonempty
  have within : first :: more <+: (sent s).take client.settings.maxResponseSize := by
    rw [List.prefix_take_iff, stream]
    exact ⟨⟨after, rfl⟩, allowed⟩
  have found := (course_finds course opens within denotes).1
  simp only [Client.receive, found, Client.answerOf]

def answering (text : List UInt8) : Network := fun _ _ => .accepted fun _ _ => ⟨[text], .close⟩

theorem exchange_answering (client : Client) (items : List Json) (request : List UInt8)
    (integral : IntegralItems items) (shallow : depthItems items < maxDepth)
    (allowed : (Json.array items).write.length ≤ client.settings.maxResponseSize) :
    (client.exchange (answering (Json.array items).write) request).answer = .ok (Json.array items).canonical := by
  have read : Json.read maxDepth (Json.array items).write = .ok (.array items, []) :=
    read_write integral shallow
  have stream : sent ⟨[(Json.array items).write], .close⟩ = (Json.array items).write ++ [] := by
    simp [sent]
  have nonempty : [] ∉ [openBracket :: writeItems items] := by
    simp
  exact receive_opened client (.inl rfl) (denotes_of_read read) nonempty stream allowed

theorem receive_response (client : Client) {s : Stream} {text after : List UInt8} {r : Response}
    (written : Written text r.toJson) (faithful : Faithful r) (nonempty : [] ∉ s.chunks)
    (stream : sent s = text ++ after) (allowed : text.length ≤ client.settings.maxResponseSize) :
    client.receive s = .ok r.toJson.canonical := by
  obtain ⟨more, rfl⟩ := written_opens written
  exact receive_opened client (.inr (.inl rfl)) (written_denotes written faithful) nonempty stream allowed

theorem acceptResponse_faithful {k : UInt64} {r : Response} (faithful : Faithful r)
    (id : r.id = none ∨ r.id = some (.number k)) :
    Ticket.acceptResponse k r.toJson.canonical = .ok r := by
  have decoded : Response.decoder.ofTree r.toJson.canonical = .ok r := by
    simp only [Response.decoder, Decoder.whole, response_decoded faithful]
  exact acceptResponse_ok.2 ⟨decoded, id⟩

/-- A request gives the response that the peer writes, be it a success or a failure. -/
theorem request_gives_response (s : Session) (network : Network) {peer : Peer} {method : String}
    {params : Option Params} {r : Response} {text after : List UInt8} {stream : Stream}
    (named : method ≠ "") (faithful : Faithful r)
    (id : r.id = none ∨ r.id = some (.number s.nextId))
    (accepts : network s.client.host s.client.port = .accepted peer)
    (answers : stream = peer ((Request.bare method params).withVersion.withId (.number s.nextId)).toJson.write
      s.client.settings.shutdownWrite)
    (written : Written text r.toJson) (allowed : text.length ≤ s.client.settings.maxResponseSize)
    (nonempty : [] ∉ stream.chunks) (begins : stream.chunks.flatten = text ++ after) :
    (s.perform network (.request method params)).2.1 = .ok (.response r) := by
  have begun : s.begin (.request method params) = .ok ({ s with nextId := s.nextId + 1 },
      ⟨((Request.bare method params).withVersion.withId (.number s.nextId)).toJson.write,
        some s.nextId⟩) := by
    simp only [Session.begin, Request.checked, if_neg named]
    rfl
  have received : s.client.receive stream = .ok r.toJson.canonical :=
    receive_response s.client written faithful nonempty begins allowed
  subst answers
  simp only [Session.perform, begun, Client.exchange, accepts, received, Ticket.complete,
    acceptResponse_faithful faithful id]
  rfl

theorem request_gives_failure :
    ((Session.start ⟨"localhost", 80, {}, rfl⟩).perform
      (fun _ _ => .accepted fun _ _ =>
        ⟨[openBrace :: (Failure.ofError (.ofCode .methodNotFound) none).toJson.write.tail.dropLast,
          [closeBrace, closeBrace]], .wait⟩)
      (.request "sum" none)).2.1 =
        .ok (.response (.failure (.ofError (.ofCode .methodNotFound) none))) := by
  have faithful : Faithful (.failure (.ofError (.ofCode .methodNotFound) none)) :=
    ⟨⟨-32601, rfl⟩, fun _ present => by cases present⟩
  refine request_gives_response (Session.start ⟨"localhost", 80, {}, rfl⟩) _ (by decide) faithful
    (.inl rfl) rfl rfl (.inl rfl) ?_ ?_ (show _ = _ ++ [closeBrace] from ?_) <;> decide +kernel

end SocketRpc.Proofs.Client
