import SocketRpc.Proofs.CommandLine.Arguments
import SocketRpc.Proofs.CommandLine.Output
import SocketRpc.Proofs.Rpc.Request

namespace SocketRpc.Proofs.CommandLine
open SocketRpc.Json SocketRpc.Framing SocketRpc.CommandLine
open SocketRpc.Proofs.Json SocketRpc.Proofs.Decoding SocketRpc.Proofs.Rpc Ascii

variable {a : Arguments}
variable {environment : String → Option String} {client : Client} {params : Params}

def WereRead (params : Option Params) : Prop := ∀ p, params = some p → ∃ text, readParams text = .ok p

theorem lasting_parameters : Lasting fun given => WereRead given.params where
  start := nofun
  value := by
    intro given next setting value h read
    cases setting with
    | params =>
        obtain ⟨params, found, rfl⟩ := map_ok.1 read
        rintro p ⟨⟩
        exact ⟨value, found⟩
    | id | host => cases read; exact h
    | port | bufferSize | maxResponseSize | timeout | connectTimeout =>
        obtain ⟨_, -, rfl⟩ := map_ok.1 read
        exact h
  flag := by
    intro given next flag h set
    rw [setFlag_same set]
    exact h
  method _ h := h

theorem parse_parameters {arguments : List String} (accepted : parse environment arguments = .ok a) :
    WereRead a.params := by
  obtain ⟨given, read, complete⟩ := parse_lasting lasting_parameters accepted
  unfold Given.complete at complete
  split at complete <;> cases complete
  exact read

theorem readParams_ok {text : String} (h : readParams text = .ok params) :
    Json.parse (Utf8.bytes text) = .ok params.toJson := by
  unfold readParams at h
  split at h
  · cases h
  · next value parsed =>
      split at h
      · next ofValue =>
          cases h
          cases value <;> cases ofValue <;> exact parsed
      · cases h

def requestOf (a : Arguments) : Request :=
  ⟨if a.jsonrpc then some .v2 else none, a.method, a.params, a.id⟩

theorem request_made (named : a.method ≠ "") : a.request = .ok (requestOf a) := by
  obtain ⟨method, params, id, jsonrpc, host, port, settings⟩ := a
  have checked : Request.checked method params = .ok (.bare method params) := if_neg named
  rw [Arguments.request, checked]
  cases jsonrpc <;> cases id <;> rfl

theorem prepare_made (named : a.method ≠ "") (built : Client.build a.settings a.host a.port = .ok client) :
    a.prepare = .ok (requestOf a, client) := by
  rw [Arguments.prepare, request_made named, built]
  rfl

theorem request_read {other : Request} (read : WereRead a.params)
    (integral : ∀ p, a.params = some p → Integral p.toJson) :
    Request.decoder.decode (requestOf a).toJson.write = .ok other ↔
      other = requestOf a ∧ ∀ p, a.params = some p → p.toJson.depth < maxDepth := by
  refine request_text_iff (fun p given => ?_) integral
  obtain ⟨text, read⟩ := read p given
  exact canonical_parse (readParams_ok read)

/-- The first line that is printed is the request that was made, as it is sent. It is read back as this
request and nothing else, and only as long as the parameters are less deep than what can be read. -/
theorem printed_request (network : Network) (named : a.method ≠ "") (read : WereRead a.params)
    (integral : ∀ p, a.params = some p → Integral p.toJson)
    (built : Client.build a.settings a.host a.port = .ok client) :
    ∃ request line rest, a.request = .ok request ∧
      request = ⟨if a.jsonrpc then some .v2 else none, a.method, a.params, a.id⟩ ∧
      (run network a).stdout = line ++ newline :: rest ∧ newline ∉ line ∧
      ((Session.start client).perform network (.send (.json request.toJson))).2.2 = (run network a).sent ∧
      (∀ peer, network client.host client.port = .accepted peer → (run network a).sent = some line) ∧
      ∀ other, Request.decoder.decode line = .ok other ↔
        other = request ∧ ∀ p, a.params = some p → p.toJson.depth < maxDepth := by
  obtain ⟨rest, -, printed, sent⟩ := run_prepared network (prepare_made named built)
  refine ⟨requestOf a, _, rest, request_made named, rfl, printed, ?_, ?_, ?_, fun other => ?_⟩
  · intro within
    exact absurd (visible_write _ newline within) (by decide)
  · rw [perform_json, sent]
  · intro peer accepts
    rw [sent, exchange_accepted accepts]
  · exact request_read read integral

theorem default_client : Client.build {} "127.0.0.1" 1234 = .ok ⟨"127.0.0.1", 1234, {}, rfl⟩ := rfl

theorem sum_is_read : ∃ a, parse (fun _ => none) ["--jsonrpc", "sum", "--id=-7", "--params", "[1,2]"] = .ok a ∧
    ∃ line rest, (run .unreachable a).stdout = line ++ newline :: rest ∧
      Request.decoder.decode line =
        .ok ⟨some .v2, "sum", some (.array [.ofNat 1, .ofNat 2]), some (.text "-7")⟩ := by
  let a : Arguments :=
    ⟨"sum", some (.array [.ofNat 1, .ofNat 2]), some (.text "-7"), true, "127.0.0.1", 1234, {}⟩
  have accepted : parse (fun _ => none) ["--jsonrpc", "sum", "--id=-7", "--params", "[1,2]"] = .ok a := rfl
  have integral : ∀ p, a.params = some p → Integral p.toJson := by
    rintro p ⟨⟩
    exact ⟨trivial, trivial, trivial⟩
  have shallow : ∀ p, a.params = some p → p.toJson.depth < maxDepth := by
    rintro p ⟨⟩
    decide
  obtain ⟨request, line, rest, -, rfl, printed, -, -, -, reads⟩ :=
    printed_request .unreachable (by decide) (parse_parameters accepted) integral default_client
  exact ⟨a, accepted, line, rest, printed, (reads _).2 ⟨rfl, shallow⟩⟩

def nested : Nat → Json
  | 0 => .array []
  | n + 1 => .array [nested n]

theorem nested_integral (n : Nat) : Integral (nested n) := by
  induction n with
  | zero => trivial
  | succ n ih => exact ⟨ih, trivial⟩

theorem nested_depth (n : Nat) : (nested n).depth = n + 1 := by
  induction n with
  | zero => rfl
  | succ n ih => simp [nested, Json.depth, Json.depthItems, ih]

theorem nested_canonical (n : Nat) : (nested n).canonical = nested n := by
  induction n with
  | zero => rfl
  | succ n ih => simp [nested, Json.canonical, Json.canonicalItems, ih]

theorem nested_params {text : String} {n : Nat} (fits : n < maxDepth) (same : Utf8.bytes text = (nested n).write) :
    ∃ params, readParams text = .ok params ∧ params.toJson = nested n := by
  have read : Json.read maxDepth (nested n).write = .ok (nested n, []) := by
    apply read_write (nested_integral n)
    rw [nested_depth]
    exact fits
  have parsed : Json.parse (Utf8.bytes text) = .ok (nested n) :=
    parse_ok.2 ⟨nested n, [], same ▸ read, rfl, (nested_canonical n).symm⟩
  simp only [readParams, parsed]
  cases n <;> exact ⟨_, rfl, rfl⟩

/-- Parameters of the greatest depth that is accepted make a request that cannot be read. -/
theorem deepest_parameters : ∃ params,
    readParams (String.ofList (List.replicate 127 '[' ++ List.replicate 127 ']')) = .ok params ∧
    Integral params.toJson ∧
    let a : Arguments := ⟨"foo", some params, none, false, "127.0.0.1", 1234, {}⟩
    (run Network.unreachable a).stdout = (requestOf a).toJson.write ++ [newline] ∧
    ∀ other, Request.decoder.decode (requestOf a).toJson.write ≠ .ok other := by
  have same : Utf8.bytes (String.ofList (List.replicate 127 '[' ++ List.replicate 127 ']')) =
      (nested 126).write := by
    rw [bytes_encoded, String.toList_ofList]
    decide +kernel
  obtain ⟨params, read, tree⟩ := nested_params (by decide) same
  have integral : Integral params.toJson := tree ▸ nested_integral 126
  have given : ∀ p, some params = some p → Integral p.toJson := by
    rintro p ⟨⟩
    exact integral
  have wereRead : WereRead (some params) := by
    rintro p ⟨⟩
    exact ⟨_, read⟩
  refine ⟨params, read, integral, ?_⟩
  intro a
  have named : a.method ≠ "" := by
    show "foo" ≠ ""
    decide
  have prepared : a.prepare = .ok (requestOf a, _) := prepare_made named default_client
  refine ⟨?_, fun other decodes => ?_⟩
  · simp only [run, prepared]
    exact List.append_nil _
  · have shallow := ((request_read wereRead given).1 decodes).2 params rfl
    rw [tree, nested_depth] at shallow
    exact absurd shallow (by decide)

end SocketRpc.Proofs.CommandLine
