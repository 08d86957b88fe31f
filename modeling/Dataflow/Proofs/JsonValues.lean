import Dataflow.Proofs.JsonText
/-!
# Values that a document can hold

A value that is kept as it is has numbers in range, distinct keys in its objects and no more nesting
than there is room for. Main statements: such a value is read back from its tree
(`readValue_tree`), and everything that is read is such a value (`fits_of_readValue`).
-/
set_option autoImplicit false

namespace Dataflow.Json

mutual

/-- The value can be read where `room` arrays and objects may still be nested in one another. -/
def Value.Fits : Value → Nat → Prop
  | .null, _ => True
  | .bool _, _ => True
  | .number n, _ => n.Proper
  | .string _, _ => True
  | .array items, room => 0 < room ∧ ItemsFit items (room - 1)
  | .object members, room =>
    0 < room ∧ (members.map (·.1)).Nodup ∧ MembersFit members (room - 1)

def ItemsFit : List Value → Nat → Prop
  | [], _ => True
  | v :: rest, room => v.Fits room ∧ ItemsFit rest room

def MembersFit : List (String × Value) → Nat → Prop
  | [], _ => True
  | (_, v) :: rest, room => v.Fits room ∧ MembersFit rest room

end

theorem membersFit_iff {members : List (String × Value)} {room : Nat} :
    MembersFit members room ↔ ∀ m ∈ members, m.2.Fits room := by
  induction members with
  | nil => simp [MembersFit]
  | cons m rest ih =>
    rw [MembersFit, ih, List.forall_mem_cons]

/-! ## Members -/

namespace Value

variable {members : List (String × Value)} {key : String} {v : Value}

theorem insertMember_of_notMem (h : key ∉ members.map (·.1)) :
    insertMember members key v = members ++ [(key, v)] := by
  induction members with
  | nil => rfl
  | cons m rest ih =>
    simp only [List.map_cons, List.mem_cons, not_or] at h
    rw [insertMember, if_neg (Ne.symm h.1), ih h.2]
    rfl

theorem map_fst_insertMember (members : List (String × Value)) (key : String) (v : Value) :
    (insertMember members key v).map (·.1)
      = if key ∈ members.map (·.1) then members.map (·.1) else members.map (·.1) ++ [key] := by
  induction members with
  | nil => rfl
  | cons m rest ih =>
    rw [insertMember]
    by_cases hkey : m.1 = key
    · simp [hkey]
    · rw [if_neg hkey, List.map_cons, ih]
      by_cases hrest : key ∈ rest.map (·.1)
      · simp [hrest]
      · simp [hrest, Ne.symm hkey]

theorem nodup_insertMember (h : (members.map (·.1)).Nodup) :
    ((insertMember members key v).map (·.1)).Nodup := by
  rw [map_fst_insertMember]
  split
  · exact h
  · next hkey =>
    rw [← List.concat_eq_append]
    exact (List.nodup_concat _ _).mpr ⟨hkey, h⟩

theorem mem_insertMember {m : String × Value} (h : m ∈ insertMember members key v) :
    m ∈ members ∨ m = (key, v) := by
  induction members with
  | nil => exact .inr (List.mem_singleton.mp h)
  | cons m' rest ih =>
    rw [insertMember] at h
    split at h
    · rcases List.mem_cons.mp h with rfl | hrest
      · exact .inr rfl
      · exact .inl (List.mem_cons_of_mem _ hrest)
    · rcases List.mem_cons.mp h with rfl | hrest
      · exact .inl List.mem_cons_self
      · exact (ih hrest).imp_left (List.mem_cons_of_mem _)

end Value

/-! ## Reading what was written -/

theorem nodup_append_of_cons {done rest : List (String × Value)} {key : String} {v : Value}
    (h : ((done ++ (key, v) :: rest).map (·.1)).Nodup) :
    key ∉ done.map (·.1) ∧ ((done ++ [(key, v)] ++ rest).map (·.1)).Nodup := by
  refine ⟨?_, by simpa using h⟩
  rw [List.map_append, List.map_cons, List.nodup_append] at h
  intro hmem
  exact h.2.2 key hmem key List.mem_cons_self rfl

mutual

/-- A value that fits is read from its tree. -/
theorem readValue_tree : (v : Value) → (room : Nat) → v.Fits room → v.tree.readValue room = .ok v
  | .null, _, _ => rfl
  | .bool _, _, _ => rfl
  | .number n, _, h => by
    obtain ⟨literal, hliteral, hread⟩ := readNumeral_numeral? h
    rw [Value.tree, Number.tree, hliteral, Option.elim_some, Tree.readValue, hread]
    rfl
  | .string s, _, _ => by
    rw [Value.tree, Tree.readValue, readPieces_piecesOf]
    rfl
  | .array items, room, h => by
    obtain ⟨hroom, hitems⟩ := h
    obtain ⟨room, rfl⟩ : ∃ k, room = k + 1 := ⟨room - 1, by omega⟩
    rw [Value.tree, Tree.readValue, readValues_itemTrees items room hitems]
    rfl
  | .object members, room, h => by
    obtain ⟨hroom, hkeys, hmembers⟩ := h
    obtain ⟨room, rfl⟩ : ∃ k, room = k + 1 := ⟨room - 1, by omega⟩
    rw [Value.tree, Tree.readValue, readMembers_memberTrees members room [] hkeys hmembers]
    rfl

theorem readValues_itemTrees : (items : List Value) → (room : Nat) → ItemsFit items room →
    Tree.readValues room (itemTrees items) = .ok items
  | [], _, _ => rfl
  | v :: rest, room, h => by
    rw [itemTrees, Tree.readValues, readValue_tree v room h.1, readValues_itemTrees rest room h.2]
    rfl

theorem readMembers_memberTrees : (members : List (String × Value)) → (room : Nat) →
    (done : List (String × Value)) → ((done ++ members).map (·.1)).Nodup → MembersFit members room →
    Tree.readMembers room done (memberTrees members) = .ok (done ++ members)
  | [], _, done, _, _ => by
    rw [List.append_nil]
    rfl
  | (key, v) :: rest, room, done, hkeys, h => by
    obtain ⟨hnew, hrest⟩ := nodup_append_of_cons hkeys
    rw [memberTrees, Tree.readMembers, readPieces_piecesOf, readValue_tree v room h.1]
    dsimp only
    rw [Value.insertMember_of_notMem hnew, readMembers_memberTrees rest room _ hrest h.2,
      List.append_assoc]
    rfl

end

/-! ## What is read -/

theorem map_eq_ok_iff {α β : Type} {r : Reading α} {f : α → β} {b : β} :
    r.map f = .ok b ↔ ∃ a, r = .ok a ∧ f a = b := by
  cases r with
  | error e => simp [Except.map]
  | ok a => simp [Except.map]

mutual

/-- What is read fits. -/
theorem fits_of_readValue : (t : Tree) → (room : Nat) → (v : Value) → t.readValue room = .ok v →
    v.Fits room
  | .null, _, _, h => by
    cases h
    trivial
  | .bool _, _, _, h => by
    cases h
    trivial
  | .number _, _, _, h => by
    obtain ⟨n, hn, rfl⟩ := map_eq_ok_iff.mp h
    exact proper_of_readNumeral hn
  | .string _, _, _, h => by
    obtain ⟨s, -, rfl⟩ := map_eq_ok_iff.mp h
    trivial
  | .array _, 0, _, h => absurd h (by simp [Tree.readValue])
  | .array items, room + 1, _, h => by
    obtain ⟨values, hvalues, rfl⟩ := map_eq_ok_iff.mp h
    exact ⟨Nat.succ_pos room, itemsFit_of_readValues items room values hvalues⟩
  | .object _, 0, _, h => absurd h (by simp [Tree.readValue])
  | .object members, room + 1, _, h => by
    obtain ⟨values, hvalues, rfl⟩ := map_eq_ok_iff.mp h
    exact ⟨Nat.succ_pos room, membersFit_of_readMembers members room [] values hvalues .nil trivial⟩

theorem itemsFit_of_readValues : (items : List Tree) → (room : Nat) → (values : List Value) →
    Tree.readValues room items = .ok values → ItemsFit values room
  | [], _, _, h => by
    cases h
    trivial
  | t :: rest, room, values, h => by
    rw [Tree.readValues] at h
    cases ht : t.readValue room with
    | error e => exact absurd h (by simp [ht])
    | ok v =>
      rw [ht] at h
      obtain ⟨more, hmore, rfl⟩ := map_eq_ok_iff.mp h
      exact ⟨fits_of_readValue t room v ht, itemsFit_of_readValues rest room more hmore⟩

theorem membersFit_of_readMembers : (members : List (List Piece × Tree)) → (room : Nat) →
    (done values : List (String × Value)) → Tree.readMembers room done members = .ok values →
    (done.map (·.1)).Nodup → MembersFit done room →
    (values.map (·.1)).Nodup ∧ MembersFit values room
  | [], _, _, _, h, hkeys, hdone => by
    cases h
    exact ⟨hkeys, hdone⟩
  | (pieces, t) :: rest, room, done, values, h, hkeys, hdone => by
    rw [Tree.readMembers] at h
    cases hkey : readPieces pieces with
    | error e => exact absurd h (by simp [hkey])
    | ok key =>
      cases ht : t.readValue room with
      | error e => exact absurd h (by simp [hkey, ht])
      | ok v =>
        simp only [hkey, ht] at h
        refine membersFit_of_readMembers rest room _ values h (Value.nodup_insertMember hkeys) ?_
        rw [membersFit_iff] at hdone ⊢
        intro m hm
        rcases Value.mem_insertMember hm with hold | rfl
        · exact hdone m hold
        · exact fits_of_readValue t room v ht

end

end Dataflow.Json
