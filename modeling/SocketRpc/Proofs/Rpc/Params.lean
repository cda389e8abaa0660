import SocketRpc.Proofs.Json.Canonical
import SocketRpc.Rpc.Params

namespace SocketRpc.Proofs.Rpc
open SocketRpc.Json SocketRpc.Proofs.Json

variable {tree : Json} {key name : String} {value other : Json} {kept members : List (String × Json)}

theorem insertOver_insertAbsent : Params.insertOver name other (insertAbsent key value kept) =
    insertAbsent key value (Params.insertOver name other kept) := by
  induction kept with
  | nil => grind [Params.insertOver, insertAbsent]
  | cons first kept ih => grind [Params.insertOver, insertAbsent]

theorem insertOver_canonicalMembers : Params.insertOver key value.canonical (canonicalMembers members) =
    canonicalMembers (members ++ [(key, value)]) := by
  induction members with
  | nil => rfl
  | cons first members ih => rw [List.cons_append, canonicalMembers, canonicalMembers, insertOver_insertAbsent, ih]

theorem foldl_insertOver (before : List (String × Json)) :
    members.foldl (fun kept m => Params.insertOver m.1 m.2.canonical kept) (canonicalMembers before) =
      canonicalMembers (before ++ members) := by
  induction members generalizing before with
  | nil => rw [List.foldl_nil, List.append_nil]
  | cons first members ih =>
      rw [List.foldl_cons, insertOver_canonicalMembers, ih, List.append_assoc, List.singleton_append]

theorem ofValue_ok {params : Params} : Params.ofValue tree = .ok params ↔ tree = params.toJson := by
  constructor
  · intro accepted
    cases tree <;> cases accepted <;> rfl
  · rintro rfl
    cases params <;> rfl

/-- The decoder accepts a tree exactly if the value of the tree is accepted, with the same parameters. -/
theorem ofTree_ofValue {params : Params} :
    Params.ofTree? tree = some params ↔ Params.ofValue tree.canonical = .ok params := by
  cases tree with
  | array items => simp [Params.ofTree?, Params.sequence?, Params.ofValue, canonical, canonicalItems_eq_map]
  | object members =>
      have same := @foldl_insertOver members []
      rw [canonicalMembers, List.nil_append] at same
      simp [Params.ofTree?, Params.sequence?, Params.mapping?, Params.ofValue, canonical, same]
  | _ => simp [Params.ofTree?, Params.sequence?, Params.mapping?, Params.ofValue, canonical]

theorem ofTree_some {params : Params} : Params.ofTree? tree = some params ↔ tree.canonical = params.toJson :=
  ofTree_ofValue.trans ofValue_ok

end SocketRpc.Proofs.Rpc
