import SocketRpc.Client.Network
import SocketRpc.Client.Settings
import SocketRpc.Json.Writer
import SocketRpc.Rpc.Request
import SocketRpc.Rpc.Response
/-!
# Exchanges

* `Client.exchange` connects, sends the bytes of a request and reads the reply.
* A `Session` is a client as it begins an operation, with the next request id, from 1 on.
* A `Pool` holds a client and its clones. A clone refers to the counter of the client it was made from.
* An operation is begun, which may take an id, and then completed by the answer to its exchange. In
  between, other operations may be begun and completed.
* A numbered request accepts only a response that has its own id or none.
-/

namespace SocketRpc

def Request.checked (method : String) (params : Option Params) : Except ClientError Request :=
  if method = "" then .error (.invalidInput .emptyMethod) else .ok (.bare method params)

structure Exchange where
  answer : Except ClientError Json
  sent : Option (List UInt8)

namespace Client

/-- What a reading has come to. One that would go on waiting is ended by the timeout. -/
def answerOf (client : Client) : Framing.Outcome → Except ClientError Json
  | .value value => .ok value
  | .failed error => .error (.reply error)
  | .waiting => .error (.timeout .request client.settings.timeout)

def receive (client : Client) (s : Framing.Stream) : Except ClientError Json :=
  client.answerOf
    (Framing.readReply client.settings.bufferSize client.settings.maxResponseSize s).outcome

def exchange (client : Client) (network : Network) (request : List UInt8) : Exchange :=
  match network client.host client.port with
  | .failed error => ⟨.error (.connection client.address error), none⟩
  | .timedOut => ⟨.error (.timeout .connect client.settings.connectTimeout), none⟩
  | .accepted peer => ⟨client.receive (peer request client.settings.shutdownWrite), some request⟩

end Client

inductive Body
  | json (value : Json)
  | keyedByValues (members : List (Json × Json))

def Body.encode : Body → Except ClientError (List UInt8)
  | .json value => .ok value.write
  | .keyedByValues [] => .ok (Json.object []).write
  | .keyedByValues (_ :: _) => .error (.encode ⟨.malformed .keyNotString, none⟩)

inductive Operation
  | call (method : String) (params : Option Params)
  | send (body : Body)
  | request (method : String) (params : Option Params)

structure Ticket where
  request : List UInt8
  id : Option UInt64

inductive Answer
  | value (value : Json)
  | response (response : Response)

namespace Ticket

def acceptResponse (id : UInt64) (value : Json) : Except ClientError Response :=
  match Response.decoder.ofTree value with
  | .error reason => .error (.invalidResponse (.shape reason))
  | .ok response =>
    match response.id with
    | none => .ok response
    | some got =>
      if got = .number id then .ok response
      else .error (.invalidResponse (.otherId (.number id) got))

def complete (ticket : Ticket) : Except ClientError Json → Except ClientError Answer
  | .error error => .error error
  | .ok value =>
    match ticket.id with
    | none => .ok (.value value)
    | some id => (acceptResponse id value).map .response

end Ticket

structure Session where
  client : Client
  nextId : UInt64

namespace Session

def start (client : Client) : Session := ⟨client, 1⟩

def begin (s : Session) : Operation → Except ClientError (Session × Ticket)
  | .call method params => do
    let request ← Request.checked method params
    return (s, ⟨request.toJson.write, none⟩)
  | .send body => do
    let request ← body.encode
    return (s, ⟨request, none⟩)
  | .request method params => do
    let request ← Request.checked method params
    let numbered := request.withVersion.withId (.number s.nextId)
    return ({ s with nextId := s.nextId + 1 }, ⟨numbered.toJson.write, some s.nextId⟩)

def perform (s : Session) (network : Network) (operation : Operation) :
    Session × Except ClientError Answer × Option (List UInt8) :=
  match s.begin operation with
  | .error error => (s, .error error, none)
  | .ok (next, ticket) =>
    let exchange := s.client.exchange network ticket.request
    (next, ticket.complete exchange.answer, exchange.sent)

end Session

/-- A client as it is handed around. What it was built with never changes, and `counter` is the place
of the counter that its ids come from. -/
structure Handle where
  client : Client
  counter : Nat

structure Pool where
  handles : List Handle
  counters : List UInt64

namespace Pool

def start (client : Client) : Pool := ⟨[⟨client, 0⟩], [1]⟩

def clone? (p : Pool) (i : Nat) : Option Pool :=
  p.handles[i]?.map fun handle => { p with handles := p.handles ++ [handle] }

def session? (p : Pool) (i : Nat) : Option Session := do
  let handle ← p.handles[i]?
  let nextId ← p.counters[handle.counter]?
  return ⟨handle.client, nextId⟩

def store (p : Pool) (i : Nat) (s : Session) : Pool :=
  match p.handles[i]? with
  | none => p
  | some handle => { p with counters := p.counters.set handle.counter s.nextId }

end Pool

def callOnce (network : Network) (host : String) (port : Nat) (method : String)
    (params : Option Params) : Except ClientError Answer × Option (List UInt8) :=
  match Client.build {} host port with
  | .error error => (.error error, none)
  | .ok client => ((Session.start client).perform network (.call method params)).2

end SocketRpc
