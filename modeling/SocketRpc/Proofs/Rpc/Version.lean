import SocketRpc.Proofs.Decoding.Agreement
import SocketRpc.Rpc.Version

namespace SocketRpc.Proofs.Rpc
open SocketRpc.Json SocketRpc.Proofs.Json SocketRpc.Proofs.Decoding Ascii

variable {room : Nat} {input rest : List UInt8} {tree : Json} {version : Version}

theorem closeOfText_ok : Version.closeOfText input = .ok rest ↔ skipBlanks input = closeBrace :: rest := by
  unfold Version.closeOfText
  split
  · next none => simp [none]
  · next b more skip =>
      rw [skip]
      by_cases closing : b = closeBrace
      · subst closing
        simp
      · simp [closing]

theorem nameOfText_ok : Version.nameOfText input = .ok (version, rest) ↔
    ∃ name, Quoted.start.run input = .ok (name, rest) ∧ Version.ofName name = .ok version := by
  simp only [← readQuoted_ok]
  unfold Version.nameOfText
  split
  · next error => simp [error]
  · next name left read =>
      simp only [read, Except.ok.injEq, Prod.mk.injEq]
      cases made : Version.ofName name with
      | error reason =>
          refine ⟨nofun, ?_⟩
          rintro ⟨_, ⟨rfl, rfl⟩, same⟩
          cases made.symm.trans same
      | ok found =>
          constructor
          · intro same
            cases same
            exact ⟨name, ⟨rfl, rfl⟩, made⟩
          · rintro ⟨_, ⟨rfl, rfl⟩, same⟩
            cases made.symm.trans same
            rfl

theorem version_ofObject {members : List (String × Json)} :
    Version.ofTree (.object members) = .ok version ↔ ∃ key value,
      members = [(key, value)] ∧ Version.ofName key = .ok version ∧ Decoder.unit.ofTree value = .ok () := by
  match members with
  | [] => exact ⟨nofun, nofun⟩
  | [(key, value)] =>
      simp only [Version.ofTree, bind_ok]
      constructor
      · rintro ⟨found, name, ⟨⟩, unit, same⟩
        cases same
        exact ⟨key, value, rfl, name, unit⟩
      · rintro ⟨_, _, same, name, unit⟩
        cases same
        exact ⟨version, name, (), unit, rfl⟩
  | _ :: _ :: _ => exact ⟨nofun, nofun⟩

theorem objectOfText_ok : Version.objectOfText room input = .ok (version, rest) ↔
    ∃ members, Members room true input members rest ∧ Version.ofTree (.object members) = .ok version := by
  unfold Version.objectOfText
  constructor
  · intro h
    split at h
    · cases h
    · next b text skip =>
        by_cases quoted : b = quote
        · subst quoted
          simp only [beq_self_eq_true, if_true, bind_ok, Prod.exists] at h
          obtain ⟨found, mid, named, start, colon, ⟨⟩, left, unit, _, closes, same⟩ := h
          cases same
          obtain ⟨key, read, name⟩ := nameOfText_ok.1 named
          obtain ⟨value, readValue, made⟩ := (agrees_unit.reads _ _ _ _).1 unit
          refine ⟨[(key, value)], .more (firstKey_ok.2 ⟨text, skip, read⟩) colon readValue ?_, ?_⟩
          · exact .close (nextKey_closing.2 (closeOfText_ok.1 closes))
          · exact version_ofObject.2 ⟨key, value, rfl, name, made⟩
        · simp only [beq_eq_false_iff_ne.2 quoted, Bool.false_eq_true, if_false] at h
          split at h <;> cases h
  · rintro ⟨members, found, made⟩
    obtain ⟨key, value, rfl, name, unit⟩ := version_ofObject.1 made
    cases found with
    | @more _ _ mid start left _ _ _ _ due colon readValue later =>
        cases later with
        | close closes =>
            obtain ⟨text, skip, read⟩ := firstKey_ok.1 due
            rw [skip]
            simp only [beq_self_eq_true, if_true, bind_ok, Prod.exists]
            have named := nameOfText_ok.2 ⟨key, read, name⟩
            have null := (agrees_unit.reads room start () left).2 ⟨value, readValue, unit⟩
            have closed := closeOfText_ok.2 (nextKey_closing.1 closes)
            exact ⟨version, mid, named, start, colon, (), left, null, rest, closed, rfl⟩

theorem version_settles (distinct : Distinct tree) (version : Version) :
    Version.ofTree tree.canonical = .ok version ↔ Version.ofTree tree = .ok version := by
  cases tree with
  | object members =>
      obtain ⟨nodup, values⟩ := distinct
      have count : (canonicalMembers members).length = members.length := by
        simpa using (canonicalMembers_perm nodup).length_eq
      match members with
      | [] => exact .rfl
      | [(key, value)] =>
          have unit := agrees_unit.settles value values.1 ()
          simp [canonical, canonicalMembers, insertAbsent, version_ofObject, and_assoc, unit]
      | first :: second :: members =>
          have many {kept : List (String × Json)} (long : kept.length ≠ 1) :
              Version.ofTree (.object kept) ≠ .ok version := by
            intro made
            obtain ⟨key, value, rfl, -⟩ := version_ofObject.1 made
            exact long rfl
          have long : (canonicalMembers (first :: second :: members)).length ≠ 1 := by simp [count]
          exact iff_of_false (many long) (many (by simp))
  | _ => exact .rfl

theorem agrees_version : Agrees Version.decoder where
  reads room input version rest := by
    rw [← read_skip]
    simp only [Version.decoder, Version.ofText]
    cases skip : skipBlanks input with
    | nil => simp [read_nil]
    | cons b more =>
        have told {tree : Json} := fun read : Json.read room (b :: more) = .ok (tree, rest) =>
          firstByte_of_read (skipBlanks_solid skip) read
        by_cases quoted : b = quote
        · subst quoted
          simp only [beq_self_eq_true, if_true, nameOfText_ok, read_quote]
          constructor
          · rintro ⟨name, read, made⟩
            exact ⟨.string name, ⟨name, rfl, read⟩, made⟩
          · rintro ⟨tree, ⟨name, rfl, read⟩, made⟩
            exact ⟨name, read, made⟩
        by_cases opens : b = openBrace
        · subst opens
          cases room with
          | zero => exact ⟨nofun, nofun⟩
          | succ room =>
              simp only [read_object]
              refine objectOfText_ok.trans ?_
              constructor
              · rintro ⟨members, found, made⟩
                exact ⟨.object members, ⟨members, rfl, found⟩, made⟩
              · rintro ⟨tree, ⟨members, rfl, found⟩, made⟩
                exact ⟨members, found, made⟩
        · simp only [beq_eq_false_iff_ne.2 quoted, beq_eq_false_iff_ne.2 opens, Bool.false_eq_true, if_false]
          refine ⟨nofun, ?_⟩
          rintro ⟨tree, read, made⟩
          cases tree with
          | string s => exact absurd ((told read).string.2 ⟨s, rfl⟩) quoted
          | object members => exact absurd ((told read).object.2 ⟨members, rfl⟩) opens
          | _ => cases made
  settles tree distinct version := version_settles distinct version

end SocketRpc.Proofs.Rpc
