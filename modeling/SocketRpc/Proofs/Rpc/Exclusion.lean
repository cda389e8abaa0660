import SocketRpc.Proofs.Rpc.Response

/-!
# Successes and failures

An object is never both a success and a failure, as only a failure has an error. An array does not name
what it lists, and what a failure lists is a success whose result is the error.

* `object_exclusive` and `listed_success` are the two cases.
* `failure_told_apart`: a failure is taken for one exactly if it is not listed, and only then does the order
  not matter in which the two are tried.
-/

namespace SocketRpc.Proofs.Rpc
open SocketRpc.Json SocketRpc.Proofs.Json SocketRpc.Proofs.Decoding

variable {tree : Json} {f : Failure}

theorem failure_names_error {members : List (String × Json)}
    (h : Failure.decoder.ofTree (.object members) = .ok f) : "error" ∈ members.map Prod.fst := by
  obtain ⟨draft, made, built⟩ := bind_ok.1 h
  by_cases named : "error" ∈ members.map Prod.fst
  · exact named
  have none : draft.error = none := by
    refine ofMembers_keeps (P := fun draft => draft.error = none) ?_ rfl made
    intro field field_mem name tree update decoded draft none
    simp only [Failure.record, List.mem_cons, List.not_mem_nil, or_false] at field_mem
    rcases field_mem with rfl | rfl | rfl
    · obtain ⟨version, -, rfl⟩ := map_ofTree.1 decoded
      exact none
    · exact absurd name named
    · obtain ⟨id, -, rfl⟩ := map_ofTree.1 decoded
      exact none
  obtain ⟨error, required, -⟩ := bind_ok.1 built
  rw [none] at required
  cases required

theorem object_exclusive {members : List (String × Json)}
    (h : Failure.decoder.ofTree (.object members) = .ok f) (s : Success) :
    Success.decoder.ofTree (.object members) ≠ .ok s := by
  intro success
  obtain ⟨draft, made, -⟩ := bind_ok.1 success
  obtain ⟨⟨_, tree⟩, member, rfl⟩ := List.mem_map.1 (failure_names_error h)
  obtain ⟨field, field_mem, name⟩ := ofMembers_named made _ member
  simp only [Success.record, List.mem_cons, List.not_mem_nil, or_false] at field_mem
  rcases field_mem with rfl | rfl | rfl
  all_goals
    simp only at name
    exact absurd name (by decide)

theorem listed_success {items : List Json} (h : Failure.decoder.ofTree (.array items) = .ok f) :
    ∃ s, Success.decoder.ofTree (.array items) = .ok s := by
  obtain ⟨draft, made, -⟩ := bind_ok.1 h
  match items with
  | [] => cases made
  | [_] =>
      obtain ⟨_, _, made⟩ := ofItems_cons.1 made
      cases made
  | first :: second :: rest =>
      obtain ⟨_, decoded, made⟩ := ofItems_cons.1 made
      obtain ⟨version, versionRead, rfl⟩ := map_ofTree.1 decoded
      obtain ⟨_, -, made⟩ := ofItems_cons.1 made
      have last : ∃ last, Success.record.ofItems (first :: second :: rest).length 2
          [⟨"id", Id.decoder.optional.map fun id draft => { draft with id := some id }, true⟩]
          ⟨some version, some second.canonical, none⟩ rest = .ok last := by
        match rest with
        | [] => exact ⟨_, rfl⟩
        | [third] =>
            obtain ⟨_, decoded, -⟩ := ofItems_cons.1 made
            obtain ⟨id, idRead, rfl⟩ := map_ofTree.1 decoded
            exact ⟨_, ofItems_cons.2 ⟨_, map_ofTree.2 ⟨id, idRead, rfl⟩, rfl⟩⟩
        | _ :: _ :: _ =>
            obtain ⟨_, _, made⟩ := ofItems_cons.1 made
            cases made
      obtain ⟨last, read⟩ := last
      refine ⟨_, bind_ok.2 ⟨last, ofItems_cons.2 ⟨_, map_ofTree.2 ⟨version, versionRead, rfl⟩, ?_⟩, rfl⟩⟩
      exact ofItems_cons.2 ⟨_, map_ofTree.2 ⟨second.canonical, rfl, rfl⟩, read⟩

def ListedFailure (tree : Json) : Prop :=
  (∃ items, tree = .array items) ∧ ∃ f, Failure.decoder.ofTree tree = .ok f

def failureFirst? (tree : Json) : Option Response :=
  match Failure.decoder.ofTree tree with
  | .ok f => some (.failure f)
  | .error _ =>
    match Success.decoder.ofTree tree with
    | .ok s => some (.success s)
    | .error _ => none

theorem success_and_failure : ((∃ s, Success.decoder.ofTree tree = .ok s) ∧
    ∃ f, Failure.decoder.ofTree tree = .ok f) ↔ ListedFailure tree := by
  constructor
  · rintro ⟨⟨s, success⟩, f, failure⟩
    refine ⟨?_, f, failure⟩
    cases tree with
    | array items => exact ⟨items, rfl⟩
    | object members => exact absurd success (object_exclusive failure s)
    | _ => cases failure
  · rintro ⟨⟨items, rfl⟩, f, failure⟩
    exact ⟨listed_success failure, f, failure⟩

theorem response_ofTree {r : Response} :
    Response.decoder.ofTree tree = .ok r ↔ Response.ofTree? tree = some r := by
  simp only [Response.decoder, Decoder.whole]
  split
  · next same => simp [same]
  · next none => simp [none]

theorem named_failure (failure : Failure.decoder.ofTree tree = .ok f) (named : ¬ ListedFailure tree) :
    Response.ofTree? tree = some (.failure f) :=
  ofTree?_failure.2 ⟨fun s success => named (success_and_failure.1 ⟨⟨s, success⟩, f, failure⟩), failure⟩

theorem failureFirst?_failure (failure : Failure.decoder.ofTree tree = .ok f) :
    failureFirst? tree = some (.failure f) := by
  simp only [failureFirst?, failure]

theorem order_matters : failureFirst? tree = Response.ofTree? tree ↔ ¬ ListedFailure tree := by
  constructor
  · rintro same ⟨list, f, failure⟩
    obtain ⟨⟨s, success⟩, -⟩ := success_and_failure.2 ⟨list, f, failure⟩
    rw [failureFirst?_failure failure, ofTree?_success.2 success] at same
    cases same
  · intro named
    cases failure : Failure.decoder.ofTree tree with
    | ok f => rw [failureFirst?_failure failure, named_failure failure named]
    | error reason =>
        cases success : Success.decoder.ofTree tree <;>
          simp only [failureFirst?, Response.ofTree?, failure, success]

/-- A failure that names its members is no success, so it is taken for what it is, whichever is tried
first. One that lists them is a success too, and is taken for that. -/
theorem failure_told_apart (tree : Json) :
    (((∃ s, Success.decoder.ofTree tree = .ok s) ∧ ∃ f, Failure.decoder.ofTree tree = .ok f) ↔
      ListedFailure tree) ∧
    (∀ f, Failure.decoder.ofTree tree = .ok f → ¬ ListedFailure tree →
      Response.decoder.ofTree tree = .ok (.failure f) ∧ (Response.failure f).result = .error f.error) ∧
    (ListedFailure tree → ∃ s, Response.decoder.ofTree tree = .ok (.success s)) ∧
    (failureFirst? tree = Response.ofTree? tree ↔ ¬ ListedFailure tree) := by
  refine ⟨success_and_failure, ?_, ?_, order_matters⟩
  · intro f failure named
    exact ⟨response_ofTree.2 (named_failure failure named), rfl⟩
  · intro listed
    obtain ⟨⟨s, success⟩, -⟩ := success_and_failure.2 listed
    exact ⟨s, response_ofTree.2 (ofTree?_success.2 success)⟩

theorem listed_failure_succeeds :
    let error := RpcError.ofCode .methodNotFound
    let tree := Json.array [.null, error.toJson, .ofNat 1]
    Failure.decoder.ofTree tree = .ok ⟨none, error, some (.number 1)⟩ ∧
      Success.decoder.ofTree tree = .ok ⟨none, error.toJson, some (.number 1)⟩ ∧
      Response.decoder.ofTree tree = .ok (.success ⟨none, error.toJson, some (.number 1)⟩) ∧
      failureFirst? tree ≠ Response.ofTree? tree := by
  intro error tree
  have failure : Failure.decoder.ofTree tree = .ok ⟨none, error, some (.number 1)⟩ := rfl
  have success : Success.decoder.ofTree tree = .ok ⟨none, error.toJson, some (.number 1)⟩ := rfl
  refine ⟨failure, success, response_ofTree.2 (ofTree?_success.2 success), ?_⟩
  rw [failureFirst?_failure failure, ofTree?_success.2 success]
  nofun

end SocketRpc.Proofs.Rpc
