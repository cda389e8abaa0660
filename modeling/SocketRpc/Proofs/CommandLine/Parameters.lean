import SocketRpc.Proofs.CommandLine.Legibility
import SocketRpc.Proofs.Rpc.Forms

namespace SocketRpc.Proofs.CommandLine
open SocketRpc.Json SocketRpc.CommandLine SocketRpc.Proofs.Json SocketRpc.Proofs.Decoding SocketRpc.Proofs.Rpc

variable {tree : Json} {text : String} {params : Params} {input rest : List UInt8} {fault : Fault}
variable {e : JsonError}

theorem readParams_iff : readParams text = .ok params ↔ Json.parse (Utf8.bytes text) = .ok params.toJson := by
  refine ⟨readParams_ok, fun parsed => ?_⟩
  simp only [readParams, parsed, ofValue_ok.2 rfl]

theorem parse_fault (read : Json.read maxDepth input = .error fault) :
    Json.parse input = .error (fault.toError input) := by
  simp only [Json.parse, read]

theorem decode_fault (read : Json.read maxDepth input = .error fault) :
    Params.decoder.decode input = .error (fault.toError input) := by
  simp only [Decoder.decode, Params.decoder, Decoder.whole, Decoder.readTree, read]
  rfl

def unfit : JsonError := ⟨.mismatch (.noVariant "Params"), none⟩

theorem decode_read (read : Json.read maxDepth input = .ok (tree, rest)) :
    Params.decoder.decode input = match Params.ofTree? tree with
      | none => .error unfit
      | some params => match Json.trailing? rest with
        | some fault => .error (fault.toError input)
        | none => .ok params := by
  simp only [Decoder.decode, Params.decoder, Decoder.whole, Decoder.readTree, read]
  cases Params.ofTree? tree <;> rfl

theorem parse_read (read : Json.read maxDepth input = .ok (tree, rest)) :
    Json.parse input = match Json.trailing? rest with
      | some fault => .error (fault.toError input)
      | none => .ok tree.canonical := by
  cases ends : Json.trailing? rest <;> simp only [Json.parse, read, ends]

/-- The items stand in their order; of the members of a key only the last one is kept. -/
inductive Holds : Params → Json → Prop
  | array (items : List Json) : Holds (.array (items.map canonical)) (.array items)
  | map {kept members : List (String × Json)} (sorted : Sorted kept)
      (last : ∀ key, kept.lookup key = (members.reverse.lookup key).map canonical) :
      Holds (.map kept) (.object members)

theorem holds_of_tree (found : Params.ofTree? tree = some params) : Holds params tree := by
  cases tree with
  | array items =>
      cases found
      exact .array items
  | object members =>
      cases (ofTree_ofValue.1 found)
      exact .map (sorted_canonicalMembers members) (lookup_canonicalMembers members)
  | _ => cases found

structure BothGive (text : String) (params : Params) : Prop where
  read : readParams text = .ok params
  decoded : Params.decoder.decode (Utf8.bytes text) = .ok params
  value : Json.parse (Utf8.bytes text) = .ok params.toJson
  holds : ∃ tree rest, Json.read maxDepth (Utf8.bytes text) = .ok (tree, rest) ∧ Holds params tree

structure BothRefuse (text : String) (reason : ValueError) (e : JsonError) : Prop where
  read : readParams text = .error reason
  decoded : Params.decoder.decode (Utf8.bytes text) = .error e
  alike : reason = .json e ∨ e = unfit
  never : ∀ params : Params, Json.parse (Utf8.bytes text) ≠ .ok params.toJson

theorem refuse_alike (parsed : Json.parse (Utf8.bytes text) = .error e)
    (decoded : Params.decoder.decode (Utf8.bytes text) = .error e) : BothRefuse text (.json e) e where
  read := by simp only [readParams, parsed]
  decoded := decoded
  alike := .inl rfl
  never params := by
    rw [parsed]
    intro same
    cases same

theorem refuse_unfit (read : Json.read maxDepth (Utf8.bytes text) = .ok (tree, rest))
    (other : Params.ofTree? tree = none) : ∃ reason, BothRefuse text reason unfit := by
  have never (params : Params) : Json.parse (Utf8.bytes text) ≠ .ok params.toJson := by
    intro parsed
    rw [parse_read read] at parsed
    split at parsed
    · cases parsed
    · cases other.symm.trans (ofTree_some.2 (Except.ok.inj parsed))
  have decoded := decode_read read
  rw [other] at decoded
  cases given : readParams text with
  | ok params => exact absurd (readParams_iff.1 given) (never params)
  | error reason => exact ⟨reason, given, decoded, .inr rfl, never⟩

/-- On every text both ways give the same parameters, or neither gives any. -/
theorem parameters_alike (text : String) :
    (∃ params, BothGive text params) ∨ ∃ reason e, BothRefuse text reason e := by
  cases read : Json.read maxDepth (Utf8.bytes text) with
  | error fault => exact .inr ⟨_, _, refuse_alike (parse_fault read) (decode_fault read)⟩
  | ok result =>
      obtain ⟨tree, rest⟩ := result
      cases found : Params.ofTree? tree with
      | none =>
          obtain ⟨reason, refuse⟩ := refuse_unfit read found
          exact .inr ⟨reason, unfit, refuse⟩
      | some params =>
          have decoded := decode_read read
          have parsed := parse_read read
          rw [found] at decoded
          cases ends : Json.trailing? rest with
          | some fault =>
              rw [ends] at decoded parsed
              exact .inr ⟨_, _, refuse_alike parsed decoded⟩
          | none =>
              rw [ends] at decoded parsed
              rw [ofTree_some.1 found] at parsed
              refine .inl ⟨params, readParams_iff.2 parsed, decoded, parsed, ?_⟩
              exact ⟨tree, rest, read, holds_of_tree found⟩

example : Params.decoder.decode (Utf8.bytes "[\x7b\"a\":1,\"a\":null\x7d]") =
    .ok (.array [.object [("a", .null)]]) := rfl

end SocketRpc.Proofs.CommandLine
