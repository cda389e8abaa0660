import SocketRpc.Proofs.Rpc.Exclusion
import SocketRpc.Proofs.Rpc.Version

namespace SocketRpc.Proofs.Rpc
open SocketRpc.Json SocketRpc.Proofs.Json SocketRpc.Proofs.Decoding

variable {tree : Json} {items : List Json} {version : Option Version} {id : Option Id}

inductive GivesVersion : Json → Option Version → Prop
  | absent : GivesVersion .null none
  | name : GivesVersion (.string "2.0") (some .v2)
  | object : GivesVersion (.object [("2.0", .null)]) (some .v2)

inductive GivesId : Json → Option Id → Prop
  | absent : GivesId .null none
  | text (s : String) : GivesId (.string s) (some (.text s))
  | number (n : UInt64) : GivesId (.ofNat n) (some (.number n))

theorem ofName_ok {name : String} {v : Version} : Version.ofName name = .ok v ↔ name = "2.0" := by
  unfold Version.ofName
  split
  · next same => exact ⟨fun _ => same, fun _ => rfl⟩
  · next other => exact ⟨nofun, fun same => absurd same other⟩

theorem unit_ok {u : Unit} : Decoder.unit.ofTree tree = .ok u ↔ tree = .null := by
  cases tree with
  | null => exact ⟨fun _ => rfl, fun _ => rfl⟩
  | _ => exact ⟨nofun, nofun⟩

theorem version_given : Version.decoder.optional.ofTree tree = .ok version ↔ GivesVersion tree version := by
  constructor
  · intro decoded
    by_cases null : tree = .null
    · subst null
      cases decoded
      exact .absent
    rw [optional_ofTree null] at decoded
    obtain ⟨v, read, rfl⟩ := map_ok.1 decoded
    cases tree with
    | string name =>
        obtain rfl := ofName_ok.1 read
        exact .name
    | object members =>
        obtain ⟨key, value, rfl, named, isNull⟩ := version_ofObject.1 read
        obtain rfl := ofName_ok.1 named
        obtain rfl := unit_ok.1 isNull
        exact .object
    | _ => cases read
  · intro given
    cases given <;> rfl

theorem ofNat_toUInt64 {value : Int} (fits : -0x8000000000000000 ≤ value ∧ value < 0x10000000000000000)
    (natural : 0 ≤ value) : Json.number (.integer value fits) = .ofNat value.toNat.toUInt64 := by
  have small : value.toNat < UInt64.size := by
    rw [UInt64.size]
    omega
  have same : ((value.toNat.toUInt64).toNat : Int) = value := by
    rw [Nat.toUInt64, UInt64.toNat_ofNat_of_lt' small, Int.toNat_of_nonneg natural]
  simp only [Json.ofNat, same]

theorem id_given : Id.decoder.optional.ofTree tree = .ok id ↔ GivesId tree id := by
  constructor
  · intro decoded
    by_cases null : tree = .null
    · subst null
      cases decoded
      exact .absent
    rw [optional_ofTree null] at decoded
    obtain ⟨found, read, rfl⟩ := map_ok.1 decoded
    cases tree with
    | string s =>
        cases read
        exact .text s
    | number n =>
        cases n with
        | double => cases read
        | integer value fits =>
            by_cases natural : 0 ≤ value
            · simp only [Id.decoder, Decoder.whole, Id.ofTree?, if_pos natural, Except.ok.injEq] at read
              rw [ofNat_toUInt64 fits natural, ← read]
              exact .number _
            · simp only [Id.decoder, Decoder.whole, Id.ofTree?, if_neg natural] at read
              cases read
    | _ => cases read
  · intro given
    cases given with
    | number n => simp [Decoder.optional, Json.ofNat, Id.decoder, Decoder.whole, Id.ofTree?, Except.map]
    | _ => rfl

/-- The items of an array, as far as they go, are the version, the result and the id of a success. -/
inductive ListsSuccess : List Json → Success → Prop
  | nothing : ListsSuccess [] ⟨none, .null, none⟩
  | version {first : Json} {version : Option Version} (given : GivesVersion first version) :
      ListsSuccess [first] ⟨version, .null, none⟩
  | result {first : Json} {version : Option Version} (given : GivesVersion first version) (result : Json) :
      ListsSuccess [first, result] ⟨version, result.canonical, none⟩
  | id {first last : Json} {version : Option Version} {id : Option Id} (given : GivesVersion first version)
      (result : Json) (own : GivesId last id) :
      ListsSuccess [first, result, last] ⟨version, result.canonical, id⟩

theorem success_listed {s : Success} : Success.decoder.ofTree (.array items) = .ok s ↔ ListsSuccess items s := by
  constructor
  · intro decoded
    obtain ⟨draft, made, built⟩ := bind_ok.1 decoded
    -- One item after another takes the next field.
    match items with
    | [] =>
        cases made
        cases built
        exact .nothing
    | first :: items =>
      obtain ⟨_, read, made⟩ := ofItems_cons.1 made
      obtain ⟨version, given, rfl⟩ := map_ofTree.1 read
      have given := version_given.1 given
      match items with
      | [] =>
          cases made
          cases built
          exact .version given
      | result :: items =>
        obtain ⟨_, read, made⟩ := ofItems_cons.1 made
        obtain ⟨value, same, rfl⟩ := map_ofTree.1 read
        cases same
        match items with
        | [] =>
            cases made
            cases built
            exact .result given result
        | third :: items =>
          obtain ⟨_, read, made⟩ := ofItems_cons.1 made
          obtain ⟨id, last, rfl⟩ := map_ofTree.1 read
          cases items with
          | nil =>
              cases made
              cases built
              exact .id given result (id_given.1 last)
          | cons => cases made
  · intro lists
    cases lists with
    | nothing => rfl
    | version first =>
        have first := version_given.2 first
        exact bind_ok.2 ⟨_, ofItems_cons.2 ⟨_, map_ofTree.2 ⟨_, first, rfl⟩, rfl⟩, rfl⟩
    | result first result =>
        have first := version_given.2 first
        exact bind_ok.2 ⟨_, ofItems_cons.2 ⟨_, map_ofTree.2 ⟨_, first, rfl⟩, rfl⟩, rfl⟩
    | @id _ _ version id first result third =>
        have first := version_given.2 first
        have third := id_given.2 third
        refine bind_ok.2 ⟨⟨some version, some result.canonical, some id⟩, ?_, rfl⟩
        refine ofItems_cons.2 ⟨_, map_ofTree.2 ⟨_, first, rfl⟩, ?_⟩
        refine ofItems_cons.2 ⟨_, map_ofTree.2 ⟨result.canonical, rfl, rfl⟩, ?_⟩
        exact ofItems_cons.2 ⟨_, map_ofTree.2 ⟨_, third, rfl⟩, rfl⟩

theorem response_of_array {r : Response} :
    Response.ofTree? (.array items) = some r ↔ ∃ s, r = .success s ∧ ListsSuccess items s := by
  cases r with
  | success s =>
      rw [ofTree?_success, success_listed]
      exact ⟨fun lists => ⟨s, rfl, lists⟩, fun ⟨_, same, lists⟩ => by cases same; exact lists⟩
  | failure f =>
      refine ⟨fun decoded => ?_, nofun⟩
      obtain ⟨none, failure⟩ := ofTree?_failure.1 decoded
      obtain ⟨s, success⟩ := listed_success failure
      exact absurd success (none s)

theorem response_shape {r : Response} (h : Response.ofTree? tree = some r) :
    (∃ members, tree = .object members) ∨ ∃ items, tree = .array items := by
  cases tree with
  | object members => exact .inl ⟨members, rfl⟩
  | array items => exact .inr ⟨items, rfl⟩
  | _ => cases h

end SocketRpc.Proofs.Rpc
