import SocketRpc.Proofs.Decoding.Records
import SocketRpc.Proofs.Json.Writing
import SocketRpc.Rpc.Response

namespace SocketRpc.Proofs.Rpc
open SocketRpc.Json SocketRpc.Proofs.Json SocketRpc.Proofs.Decoding

variable {σ : Type} {tree : Json}

theorem version_decoded (version : Version) (f : Option Version → σ → σ) :
    (Version.decoder.optional.map f).ofTree version.toJson = .ok (f (some version)) := by
  cases version
  simp [Decoder.map, Decoder.optional, Version.toJson, Version.decoder, Version.ofTree, Version.ofName,
    Except.map]

theorem id_decoded (id : Option Id) (f : Option Id → σ → σ) :
    (Id.decoder.optional.map f).ofTree (idMember id).2 = .ok (f id) := by
  rcases id with _ | n | s
  · rfl
  · simp [Decoder.map, Decoder.optional, idMember, Id.toJson, Json.ofNat, Id.decoder, Decoder.whole,
      Id.ofTree?, Except.map]
  · rfl

theorem id_member (id : Option Id) : ∃ value, idMember id = ("id", value) ∧ value.canonical = value ∧
    ∀ (σ : Type) (f : Option Id → σ → σ), (Id.decoder.optional.map f).ofTree value = .ok (f id) := by
  refine ⟨_, rfl, ?_, fun σ f => id_decoded id f⟩
  rcases id with _ | _ | _ <;> rfl

theorem value_decoded (f : Json → σ → σ) (h : tree.canonical = tree) :
    (Decoder.value.map f).ofTree tree = .ok (f tree) := by
  simp only [Decoder.map, Decoder.value, h]
  rfl

theorem success_decoded {s : Success} (h : s.result.canonical = s.result) :
    Success.decoder.ofTree s.toJson.canonical = .ok s := by
  obtain ⟨version, result, id⟩ := s
  obtain ⟨value, member, same, decoded⟩ := id_member id
  have sorted : (Success.toJson ⟨version, result, id⟩).canonical =
      .object (("id", value) :: (versionMember version ++ [("result", result)])) := by
    rw [Success.toJson, member]
    cases version with
    | none =>
        change Json.object [("id", value.canonical), ("result", result.canonical)] = _
        rw [same, h]
        rfl
    | some version =>
        change Json.object [("id", value.canonical), ("jsonrpc", version.toJson),
          ("result", result.canonical)] = _
        rw [same, h]
        rfl
  rw [sorted]
  -- The members come in the order of their keys, and each takes its field.
  change Success.record.ofMembers _ _ _ >>= _ = _
  rw [ofMembers_taken Success.record rfl (decoded _ _)]
  cases version with
  | none =>
      change Success.record.ofMembers _ _ [("result", result)] >>= _ = _
      rw [ofMembers_taken Success.record rfl (value_decoded _ h)]
      rfl
  | some version =>
      change Success.record.ofMembers _ _ [("jsonrpc", version.toJson), ("result", result)] >>= _ = _
      rw [ofMembers_taken Success.record rfl (version_decoded version _),
        ofMembers_taken Success.record rfl (value_decoded _ h)]
      rfl

theorem code_decoded (code : Int64) (f : ErrorCode → σ → σ) :
    (ErrorCode.decoder.map f).ofTree (ErrorCode.ofCode code).toJson = .ok (f (ErrorCode.ofCode code)) := by
  have number : (ErrorCode.ofCode code).code = code := by
    unfold ErrorCode.ofCode
    repeat' split
    all_goals first | rfl | exact Eq.symm ‹_›
  have small : code.toInt < 0x8000000000000000 := Int64.toInt_lt code
  simp [ErrorCode.toJson, number, Json.ofInt, ErrorCode.decoder, Decoder.map, Decoder.int64, Decoder.scalar,
    Except.map, small]

theorem message_decoded (message : String) (f : String → σ → σ) :
    (Decoder.string.map f).ofTree (.string message) = .ok (f message) :=
  rfl

def presentData : Json → Option Json
  | .null => none
  | data => some data

theorem presentData_of_ne {data : Json} (h : data ≠ .null) : presentData data = some data := by
  cases data with
  | null => exact absurd rfl h
  | _ => rfl

theorem data_decoded {data : Json} (f : Option Json → σ → σ) (h : data.canonical = data) :
    (Decoder.value.optional.map f).ofTree data = .ok (f (presentData data)) := by
  have read : Decoder.value.optional.ofTree data = .ok (presentData data) := by
    cases data with
    | null => rfl
    | _ => simp [Decoder.optional, Decoder.value, h, Except.map, presentData]
  simp only [Decoder.map, read]
  rfl

def receivedError (e : RpcError) : RpcError := { e with data := e.data.bind presentData }

theorem receivedError_same {e : RpcError} (h : ∀ data, e.data = some data → data ≠ .null) :
    receivedError e = e := by
  obtain ⟨code, message, data⟩ := e
  cases data with
  | none => rfl
  | some data => simp only [receivedError, Option.bind_some, presentData_of_ne (h data rfl)]

theorem error_decoded {e : RpcError} (f : RpcError → σ → σ) (code : ∃ code, e.code = .ofCode code)
    (data : ∀ data, e.data = some data → data.canonical = data) :
    (RpcError.decoder.map f).ofTree e.toJson.canonical = .ok (f (receivedError e)) := by
  obtain ⟨_, message, content⟩ := e
  obtain ⟨code, rfl⟩ := code
  have read : RpcError.decoder.ofTree (RpcError.toJson ⟨.ofCode code, message, content⟩).canonical =
      .ok (receivedError ⟨.ofCode code, message, content⟩) := by
    cases content with
    | none =>
        have sorted : (RpcError.toJson ⟨.ofCode code, message, none⟩).canonical =
            .object [("code", (ErrorCode.ofCode code).toJson), ("message", .string message)] := rfl
        rw [sorted]
        change RpcError.record.ofMembers _ _ _ >>= _ = _
        rw [ofMembers_taken RpcError.record rfl (code_decoded code _),
          ofMembers_taken RpcError.record rfl (message_decoded message _)]
        rfl
    | some content =>
        have data := data content rfl
        have sorted : (RpcError.toJson ⟨.ofCode code, message, some content⟩).canonical =
            .object [("code", (ErrorCode.ofCode code).toJson), ("data", content),
              ("message", .string message)] := by
          change Json.object [("code", (ErrorCode.ofCode code).toJson), ("data", content.canonical),
            ("message", .string message)] = _
          rw [data]
        rw [sorted]
        change RpcError.record.ofMembers _ _ _ >>= _ = _
        rw [ofMembers_taken RpcError.record rfl (code_decoded code _),
          ofMembers_taken RpcError.record rfl (data_decoded _ data),
          ofMembers_taken RpcError.record rfl (message_decoded message _)]
        rfl
  simp only [Decoder.map, read]
  rfl

def receivedFailure (f : Failure) : Failure := { f with error := receivedError f.error }

theorem failure_received {f : Failure} (code : ∃ code, f.error.code = .ofCode code)
    (data : ∀ data, f.error.data = some data → data.canonical = data) :
    Failure.decoder.ofTree f.toJson.canonical = .ok (receivedFailure f) ∧
      ∃ reason, Success.decoder.ofTree f.toJson.canonical = .error reason := by
  obtain ⟨version, error, id⟩ := f
  obtain ⟨value, member, same, decoded⟩ := id_member id
  have sorted : (Failure.toJson ⟨version, error, id⟩).canonical =
      .object (("error", error.toJson.canonical) :: ("id", value) :: versionMember version) := by
    rw [Failure.toJson, member]
    cases version with
    | none =>
        change Json.object [("error", error.toJson.canonical), ("id", value.canonical)] = _
        rw [same]
        rfl
    | some version =>
        change Json.object [("error", error.toJson.canonical), ("id", value.canonical),
          ("jsonrpc", version.toJson)] = _
        rw [same]
        rfl
  rw [sorted]
  constructor
  · change Failure.record.ofMembers _ _ _ >>= _ = _
    rw [ofMembers_taken Failure.record rfl (error_decoded _ code data),
      ofMembers_taken Failure.record rfl (decoded _ _)]
    cases version with
    | none => rfl
    | some version =>
        change Failure.record.ofMembers _ _ [("jsonrpc", version.toJson)] >>= _ = _
        rw [ofMembers_taken Failure.record rfl (version_decoded version _)]
        rfl
  · change ∃ reason, Success.record.ofMembers _ _ _ >>= _ = _
    have absent : Record.take? "error" Success.record.fields = none := rfl
    obtain ⟨reason, refused⟩ := ofMembers_unknown Success.record Success.record.empty
      error.toJson.canonical absent (("id", value) :: versionMember version)
    exact ⟨reason, by rw [refused]; rfl⟩

theorem failure_decoded {f : Failure} (code : ∃ code, f.error.code = .ofCode code)
    (data : ∀ data, f.error.data = some data → data ≠ .null ∧ data.canonical = data) :
    Failure.decoder.ofTree f.toJson.canonical = .ok f ∧
      ∃ reason, Success.decoder.ofTree f.toJson.canonical = .error reason := by
  have same : receivedFailure f = f := by
    rw [receivedFailure, receivedError_same fun content present => (data content present).1]
  have received := failure_received code fun content present => (data content present).2
  rwa [same] at received

theorem ofTree?_success {s : Success} :
    Response.ofTree? tree = some (.success s) ↔ Success.decoder.ofTree tree = .ok s := by
  unfold Response.ofTree?
  split
  · next same => simp [same]
  · next error =>
      rw [error]
      split <;> exact ⟨nofun, nofun⟩

theorem ofTree?_failure {f : Failure} : Response.ofTree? tree = some (.failure f) ↔
    (∀ s, Success.decoder.ofTree tree ≠ .ok s) ∧ Failure.decoder.ofTree tree = .ok f := by
  unfold Response.ofTree?
  split
  · next s same => exact ⟨nofun, fun both => absurd same (both.1 s)⟩
  · next error =>
      rw [error]
      split
      · next same => simp [same]
      · next error => simp [error]

/-- A value that its text carries, as long as it stands inside so many containers: it has its members
in order, and no doubles. -/
structure Carried (around : Nat) (value : Json) : Prop where
  canonical : value.canonical = value
  integral : Integral value
  depth : value.depth + around ≤ Json.maxDepth

/-- All of a response can be told from its text. -/
def Faithful : Response → Prop
  | .success s => Carried 1 s.result
  | .failure f => (∃ code, f.error.code = .ofCode code) ∧
      ∀ data, f.error.data = some data → data ≠ .null ∧ Carried 2 data

def Legible : Response → Prop
  | .success s => Carried 1 s.result
  | .failure f => (∃ code, f.error.code = .ofCode code) ∧ ∀ data, f.error.data = some data → Carried 2 data

def received : Response → Response
  | .success s => .success s
  | .failure f => .failure (receivedFailure f)

theorem Faithful.legible {r : Response} (h : Faithful r) : Legible r := by
  cases r with
  | success s => exact h
  | failure f => exact ⟨h.1, fun data present => (h.2 data present).2⟩

theorem received_same {r : Response} (h : ∀ f, r = .failure f → f.error.data ≠ some .null) :
    received r = r := by
  cases r with
  | success s => rfl
  | failure f =>
      have same := receivedError_same fun data present null => h f rfl (null ▸ present)
      simp only [received, receivedFailure, same]

theorem received_null {f : Failure} (h : f.error.data = some .null) :
    received (.failure f) = .failure { f with error := { f.error with data := none } } := by
  simp only [received, receivedFailure, receivedError, h, Option.bind_some, presentData]

theorem Faithful.received {r : Response} (h : Faithful r) : received r = r := by
  refine received_same fun f same null => ?_
  subst same
  exact (h.2 .null null).1 rfl

theorem response_received {r : Response} (h : Legible r) :
    Response.ofTree? r.toJson.canonical = some (received r) := by
  cases r with
  | success s =>
      have decoded := success_decoded h.canonical
      simp only [Response.ofTree?, Response.toJson, decoded, received]
  | failure f =>
      obtain ⟨code, data⟩ := h
      obtain ⟨decoded, reason, refused⟩ := failure_received code fun content present =>
        (data content present).canonical
      simp only [Response.ofTree?, Response.toJson, refused, decoded, received]

theorem response_decoded {r : Response} (h : Faithful r) : Response.ofTree? r.toJson.canonical = some r := by
  rw [response_received h.legible, h.received]

theorem idMember_flat (id : Option Id) : Integral (idMember id).2 ∧ (idMember id).2.depth = 0 := by
  rcases id with _ | _ | _ <;> exact ⟨trivial, rfl⟩

theorem versionMember_flat (version : Option Version) (members : List (String × Json)) :
    (IntegralMembers (versionMember version ++ members) ↔ IntegralMembers members) ∧
      depthMembers (versionMember version ++ members) = depthMembers members := by
  cases version <;> simp [versionMember, IntegralMembers, depthMembers, Version.toJson, Integral, depth]

theorem integral_error {e : RpcError} (h : ∀ data, e.data = some data → Integral data) :
    Integral e.toJson := by
  obtain ⟨code, message, data⟩ := e
  cases data with
  | none => simp [RpcError.toJson, Integral, IntegralMembers, ErrorCode.toJson, Json.ofInt]
  | some data =>
      simpa [RpcError.toJson, Integral, IntegralMembers, ErrorCode.toJson, Json.ofInt] using h data rfl

theorem depth_error {e : RpcError} {bound : Nat} (h : ∀ data, e.data = some data → data.depth ≤ bound) :
    e.toJson.depth ≤ bound + 1 := by
  obtain ⟨code, message, data⟩ := e
  cases data with
  | none => simp [RpcError.toJson, depth, depthMembers, ErrorCode.toJson, Json.ofInt]
  | some data =>
      simpa [RpcError.toJson, depth, depthMembers, ErrorCode.toJson, Json.ofInt] using h data rfl

theorem integral_toJson {r : Response} (h : Legible r) : Integral r.toJson := by
  cases r with
  | success s =>
      simp only [Response.toJson, Success.toJson, Integral, (versionMember_flat _ _).1]
      exact ⟨h.integral, (idMember_flat s.id).1, trivial⟩
  | failure f =>
      simp only [Response.toJson, Failure.toJson, Integral, (versionMember_flat _ _).1]
      refine ⟨integral_error fun data present => ?_, (idMember_flat f.id).1, trivial⟩
      exact (h.2 data present).integral

theorem depth_toJson {r : Response} (h : Legible r) : r.toJson.depth ≤ maxDepth := by
  cases r with
  | success s =>
      have room : s.result.depth + 1 ≤ maxDepth := h.depth
      simp only [Response.toJson, Success.toJson, depth, (versionMember_flat _ _).2]
      change max s.result.depth (max (idMember s.id).2.depth 0) + 1 ≤ maxDepth
      rw [(idMember_flat s.id).2]
      simpa using room
  | failure f =>
      have room : f.error.toJson.depth ≤ 125 + 1 :=
        depth_error fun data present => Nat.le_of_add_le_add_right (h.2 data present).depth
      simp only [Response.toJson, Failure.toJson, depth, (versionMember_flat _ _).2]
      change max f.error.toJson.depth (max (idMember f.id).2.depth 0) + 1 ≤ maxDepth
      rw [(idMember_flat f.id).2]
      rw [Nat.max_zero, Nat.max_eq_left (Nat.zero_le _)]
      exact Nat.succ_le_succ room

end SocketRpc.Proofs.Rpc
