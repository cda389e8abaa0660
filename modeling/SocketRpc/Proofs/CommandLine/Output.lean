import SocketRpc.CommandLine.Run
import SocketRpc.Proofs.Client.Reply
import SocketRpc.Proofs.Decoding.Depth
import SocketRpc.Proofs.Framing.Whole
import SocketRpc.Proofs.Json.OneLine

/-!
# What the program prints

The program prints the request that it sends on a line of its own, and after it the value of the reply.

* `outcome` is what a run comes to. The errors of its two parts are told apart by their kind:
  `prepare_error` for what the user gave, `exchange_arrives` for the rest.
* `Shown` is what is printed after the request, and the exit code, which `Exits` gives for each error.
* `program_output`: a run that fails because of what the user gave prints nothing and does not depend on
  the network. All others print the request, and what `Shown` says.
-/

namespace SocketRpc.Proofs.CommandLine
open SocketRpc.Json SocketRpc.Framing SocketRpc.CommandLine
open SocketRpc.Proofs.Json SocketRpc.Proofs.Framing SocketRpc.Proofs.Decoding SocketRpc.Proofs.Client Ascii

variable {network : Network} {a : Arguments} {request : Request} {client : Client} {error : ClientError}
variable {body : List UInt8}

def outcome (network : Network) (a : Arguments) : Except ClientError Json := do
  let (request, client) ← a.prepare
  (client.exchange network request.toJson.write).answer

theorem checked_error {method : String} {params : Option Params}
    (h : Request.checked method params = .error error) : error.kind = .invalidInput := by
  unfold Request.checked at h
  split at h <;> cases h
  rfl

theorem build_error {settings : Settings} {host : String} {port : Nat}
    (h : Client.build settings host port = .error error) : error.kind = .invalidInput := by
  unfold Client.build at h
  split at h <;> cases h
  rfl

theorem request_error (h : a.request = .error error) : error.kind = .invalidInput := by
  rcases bind_error.1 h with refused | ⟨bare, -, made⟩
  · exact checked_error refused
  · cases made

theorem prepare_error (h : a.prepare = .error error) : error.kind = .invalidInput := by
  rcases bind_error.1 h with refused | ⟨request, -, later⟩
  · exact request_error refused
  rcases bind_error.1 later with refused | ⟨client, -, made⟩
  · exact build_error refused
  · cases made

inductive Arrives : Except ClientError Json → Prop
  | value {text : List UInt8} {value : Json} (parsed : Json.parse text = .ok value) : Arrives (.ok value)
  | failure {error : ClientError} (kind : error.kind ≠ .invalidInput) : Arrives (.error error)

theorem Arrives.kind : Arrives (.error error) → error.kind ≠ .invalidInput
  | .failure kind => kind

theorem receive_arrives (client : Client) (s : Stream) : Arrives (client.receive s) := by
  unfold Client.receive Client.answerOf
  split
  · next value found =>
      obtain ⟨text, parsed⟩ := reading_parses (reading_readReply _ _ _ s) found
      exact .value parsed
  · next failure _ => cases failure <;> exact .failure nofun
  · exact .failure nofun

theorem exchange_arrives (network : Network) (client : Client) (body : List UInt8) :
    Arrives (client.exchange network body).answer := by
  unfold Client.exchange
  split
  · exact .failure nofun
  · exact .failure nofun
  · exact receive_arrives client _

/-- The code with which the program exits because of an error. -/
inductive Exits : ClientError → Nat → Prop
  | invalidInput (reason : InvalidInput) : Exits (.invalidInput reason) 2
  | encode (error : JsonError) : Exits (.encode error) 2
  | connection (address : String) (error : IoError) : Exits (.connection address error) 3
  | transport (error : IoError) : Exits (.reply (.transport error)) 4
  | timeout (phase : Phase) (after : Duration) : Exits (.timeout phase after) 5
  | tooLarge (limit : Nat) : Exits (.reply (.tooLarge limit)) 6
  | malformed (error : JsonError) : Exits (.reply (.malformed error)) 6
  | invalidResponse (reason : InvalidResponse) : Exits (.invalidResponse reason) 6

theorem exits_kind (error : ClientError) : Exits error error.kind.exitCode := by
  cases error with
  | reply error => cases error <;> constructor
  | _ => constructor

theorem exits_range {code : Nat} (exits : Exits error code) (kind : error.kind ≠ .invalidInput) :
    3 ≤ code ∧ code ≤ 6 := by
  cases exits with
  | invalidInput | encode => exact absurd rfl kind
  | _ => decide

/-- What is printed after the request, and the exit code: a value that can be read back if it has no
doubles, or nothing and the code of the error. -/
inductive Shown (rest : List UInt8) (exitCode : Nat) : Except ClientError Json → Prop
  | value {value : Json} (success : exitCode = 0) (reads : Integral value → Json.parse rest = .ok value) :
      Shown rest exitCode (.ok value)
  | failure {error : ClientError} (nothing : rest = []) (code : Exits error exitCode)
      (range : 3 ≤ exitCode ∧ exitCode ≤ 6) : Shown rest exitCode (.error error)

theorem shown_of_arrives {e : Exchange} (arrives : Arrives e.answer) :
    Shown (Report.ofExchange e).stdout (Report.ofExchange e).exitCode e.answer := by
  obtain ⟨answer, sent⟩ := e
  cases arrives with
  | value parsed => exact .value rfl (parse_pretty parsed)
  | failure kind => exact .failure rfl (exits_kind _) (exits_range (exits_kind _) kind)

theorem sent_ofExchange (e : Exchange) : (Report.ofExchange e).sent = e.sent := by
  unfold Report.ofExchange
  cases e.answer <;> rfl

theorem exchange_accepted {peer : Peer} (accepts : network client.host client.port = .accepted peer) :
    client.exchange network body = ⟨client.receive (peer body client.settings.shutdownWrite), some body⟩ := by
  simp only [Client.exchange, accepts]

theorem perform_json (network : Network) (client : Client) (tree : Json) :
    ((Session.start client).perform network (.send (.json tree))).2 =
      ((client.exchange network tree.write).answer.map .value, (client.exchange network tree.write).sent) := by
  have completed (answer : Except ClientError Json) :
      Ticket.complete ⟨tree.write, none⟩ answer = answer.map .value := by
    cases answer <;> rfl
  exact congrArg (·, (client.exchange network tree.write).sent) (completed _)

theorem outcome_refused (network : Network) (prepared : a.prepare = .error error) :
    outcome network a = .error error := by
  rw [outcome, prepared]
  rfl

theorem run_refused (network : Network) (prepared : a.prepare = .error error) :
    run network a = .ofError error none := by
  simp only [run, prepared]

theorem outcome_prepared (network : Network) (prepared : a.prepare = .ok (request, client)) :
    outcome network a = (client.exchange network request.toJson.write).answer := by
  rw [outcome, prepared]
  rfl

theorem run_prepared (network : Network) (prepared : a.prepare = .ok (request, client)) :
    ∃ rest, Shown rest (run network a).exitCode (outcome network a) ∧
      (run network a).stdout = request.toJson.write ++ newline :: rest ∧
      (run network a).sent = (client.exchange network request.toJson.write).sent := by
  have shown := shown_of_arrives (exchange_arrives network client request.toJson.write)
  rw [← outcome_prepared network prepared] at shown
  simp only [run, prepared]
  exact ⟨_, shown, List.append_assoc _ _ _, sent_ofExchange _⟩

/-- If the run fails because of what the user gave, nothing is printed or sent, whatever the network does.
Otherwise the first line is the request, as it is sent, and what follows is shown. All this is for buffers that
can be allocated. -/
theorem program_output {environment : String → Option String} {arguments : List String} (network : Network)
    (accepted : parse environment arguments = .ok a) :
    let report := program environment network arguments
    (∀ error, outcome network a = .error error → error.kind = .invalidInput →
      report.stdout = [] ∧ report.sent = none ∧ report.exitCode = 2 ∧
        ∀ other, program environment other arguments = report) ∧
    ((∀ error, outcome network a = .error error → error.kind ≠ .invalidInput) →
      ∃ request client rest, a.prepare = .ok (request, client) ∧
        report.stdout = request.toJson.write ++ newline :: rest ∧ Visible request.toJson.write ∧
        ((Session.start client).perform network (.send (.json request.toJson))).2 =
          ((outcome network a).map .value, report.sent) ∧
        (∀ peer, network client.host client.port = .accepted peer →
          report.sent = some request.toJson.write ∧
            outcome network a = client.receive (peer request.toJson.write client.settings.shutdownWrite)) ∧
        Shown rest report.exitCode (outcome network a)) := by
  have ran (network : Network) : program environment network arguments = run network a := by
    simp only [program, accepted]
  simp only [ran]
  -- The user is to blame exactly if the preparation fails, and then the network is not asked.
  cases prepared : a.prepare with
  | error refusal =>
      have kind := prepare_error prepared
      have failed := outcome_refused network prepared
      constructor
      · intro error same _
        cases failed.symm.trans same
        rw [run_refused network prepared]
        exact ⟨rfl, rfl, congrArg ErrorKind.exitCode kind, fun other => run_refused other prepared⟩
      · intro other
        exact absurd kind (other refusal failed)
  | ok parts =>
      obtain ⟨request, client⟩ := parts
      have came := outcome_prepared network prepared
      constructor
      · intro error failed kind
        have arrives := exchange_arrives network client request.toJson.write
        rw [← came, failed] at arrives
        exact absurd kind arrives.kind
      · intro _
        obtain ⟨rest, shown, printed, sent⟩ := run_prepared network prepared
        refine ⟨request, client, rest, rfl, printed, visible_write _, ?_, ?_, shown⟩
        · rw [perform_json, came, sent]
        · intro peer accepts
          rw [sent, came, exchange_accepted accepts]
          exact ⟨rfl, rfl⟩

theorem empty_array_printed : ∃ rest,
    (program (fun _ => none) (answering (Json.array []).write) ["sum"]).stdout =
      (Request.bare "sum" none).toJson.write ++ newline :: rest ∧
    (program (fun _ => none) (answering (Json.array []).write) ["sum"]).exitCode = 0 ∧
    Json.parse rest = .ok (.array []) := by
  obtain ⟨a, accepted, prepared⟩ : ∃ a, parse (fun _ => none) ["sum"] = .ok a ∧
      a.prepare = .ok (.bare "sum" none, ⟨"127.0.0.1", 1234, {}, rfl⟩) := ⟨_, rfl, rfl⟩
  have answered : outcome (answering (Json.array []).write) a = .ok (.array []) :=
    (outcome_prepared _ prepared).trans (exchange_answering _ [] _ trivial (by decide) (by decide +kernel))
  have succeeds (error : ClientError) (failed : outcome (answering (Json.array []).write) a = .error error) :
      error.kind ≠ .invalidInput := by
    cases answered.symm.trans failed
  obtain ⟨_, _, rest, same, printed, -, -, -, shown⟩ := (program_output _ accepted).2 succeeds
  cases prepared.symm.trans same
  rw [answered] at shown
  cases shown with
  | value success reads => exact ⟨rest, printed, success, reads trivial⟩

end SocketRpc.Proofs.CommandLine
