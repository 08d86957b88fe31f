import Dataflow.Proofs.JsonValues
/-!
# Reading records

A record is read field by field, each in the state that the earlier ones left. Main statements:
fields that were written one after another are read one after another (`readFields_append`), what
every field keeps is kept by the whole record (`readFields_invariant`, `readPlaces_invariant`), and a
field that no other one sees may as well come last (`readFields_insert`).
-/
set_option autoImplicit false

namespace Dataflow.Json

/-! ## The parts of a document that was written -/

theorem itemTrees_map {α : Type} (f : α → Value) (l : List α) :
    itemTrees (l.map f) = l.map fun a => (f a).tree := by
  induction l with
  | nil => rfl
  | cons a rest ih => rw [List.map_cons, itemTrees, ih, List.map_cons]

theorem tree_float {x : Float} (hx : x.isFinite = true) :
    ∃ literal, (Value.number (.float x)).tree = .number literal ∧
      readNumeral literal = .ok (.float x) := by
  obtain ⟨literal, hliteral, hread⟩ := readNumeral_numeral? (n := .float x) hx
  refine ⟨literal, ?_, hread⟩
  rw [Value.tree, Number.tree, hliteral]
  rfl

/-- A double that is not finite is written `null`. -/
theorem tree_float_of_not_finite {x : Float} (hx : x.isFinite = false) :
    (Value.number (.float x)).tree = .null := by
  rw [Binary64.isFinite_eq] at hx
  rw [Value.tree, Number.tree, Number.numeral?, floatNumeral?]
  cases hunpack : x.toModel.unpack with
  | notANumber => rfl
  | infinity s => rfl
  | _ => exact absurd (hunpack ▸ hx) (by simp [Float.Model.UnpackedFloat.isFinite])

/-! ## Lists -/

theorem mapM_map_eq_ok {ε α β γ : Type} {read : β → Except ε γ} {f : α → β} {g : α → γ} {l : List α}
    (h : ∀ a ∈ l, read (f a) = .ok (g a)) : (l.map f).mapM read = .ok (l.map g) := by
  induction l with
  | nil => rfl
  | cons a rest ih =>
    obtain ⟨ha, hrest⟩ := List.forall_mem_cons.mp h
    rw [List.map_cons, List.mapM_cons, ha, ih hrest]
    rfl

/-- A traversal gives what every item gives, one by one. -/
theorem mapM_eq_ok_iff_forall₂ {ε α β : Type} {read : α → Except ε β} {l : List α} {l' : List β} :
    l.mapM read = .ok l' ↔ List.Forall₂ (fun a b => read a = .ok b) l l' := by
  induction l generalizing l' with
  | nil => simp [pure, Except.pure, eq_comm]
  | cons a rest ih =>
    rw [List.mapM_cons]
    constructor
    · intro h
      cases ha : read a with
      | error e => exact absurd h (by simp [ha, bind, Except.bind])
      | ok b =>
        cases hrest : rest.mapM read with
        | error e => exact absurd h (by simp [ha, hrest, bind, Except.bind])
        | ok bs =>
          rw [ha, hrest] at h
          cases h
          exact .cons ha (ih.mp hrest)
    · rintro (_ | ⟨ha, hrest⟩)
      rw [ha, ih.mpr hrest]
      rfl

theorem forall_of_mapM_eq_ok {ε α β : Type} {read : α → Except ε β} {P : β → Prop} {l : List α}
    {l' : List β} (hread : ∀ a ∈ l, ∀ b, read a = .ok b → P b) (h : l.mapM read = .ok l') :
    ∀ b ∈ l', P b := by
  have hpairs := mapM_eq_ok_iff_forall₂.mp h
  clear h
  induction hpairs with
  | nil => exact fun b hb => absurd hb List.not_mem_nil
  | cons hab _ ih =>
    obtain ⟨hhead, htail⟩ := List.forall_mem_cons.mp hread
    exact List.forall_mem_cons.mpr ⟨hhead _ hab, ih htail⟩

namespace Tree

/-! ## Texts, ids and numbers -/

theorem readText_string (s : String) : (Value.string s).tree.readText = .ok s :=
  readPieces_piecesOf s

theorem readOption_of_ne_null {α : Type} {read : Tree → Reading α} {t : Tree} (ht : t ≠ .null) :
    t.readOption read = (read t).map some := by
  cases t with
  | null => exact absurd rfl ht
  | _ => rfl

theorem readOption_string (s : String) :
    (Value.string s).tree.readOption readText = .ok (some s) := by
  rw [readOption_of_ne_null (by simp [Value.tree]), readText_string]
  rfl

theorem readOption_bool (b : Bool) : (Value.bool b).tree.readOption readBool = .ok (some b) := rfl

theorem readId_string (s : String) (room : Nat) : (Value.string s).tree.readId room = .ok s := by
  rw [readId, readValue_tree (.string s) room trivial]

theorem readOptionalId_string (s : String) (room : Nat) :
    (Value.string s).tree.readOptionalId room = .ok (some s) := by
  change ((Value.string s).tree.readId room).map some = _
  rw [readId_string]
  rfl

theorem readFloat_float {x : Float} (hx : x.isFinite = true) :
    (Value.number (.float x)).tree.readFloat = .ok x := by
  obtain ⟨literal, htree, hread⟩ := tree_float hx
  rw [htree, readFloat, hread]
  rfl

theorem readOption_float (x : Float) :
    (Value.number (.float x)).tree.readOption readFloat
      = .ok (if x.isFinite then some x else none) := by
  cases hx : x.isFinite with
  | true =>
    obtain ⟨literal, htree, hread⟩ := tree_float hx
    rw [htree, readOption_of_ne_null (by simp), readFloat, hread]
    rfl
  | false =>
    rw [tree_float_of_not_finite hx]
    rfl

theorem mismatch_ne_ok {α : Type} (expected : String) (t : Tree) (a : α) :
    t.mismatch expected ≠ .ok a := by
  rw [mismatch]
  split <;> simp

/-! ## Fields -/

section

variable {σ : Type} {field : σ → String → Tree → Reading σ} {s s' s'' : σ} {key : String} {v : Value}
  {members more : List (String × Value)}

theorem readFields_cons (h : field s key v.tree = .ok s') :
    readFields field s (memberTrees ((key, v) :: members))
      = readFields field s' (memberTrees members) := by
  rw [memberTrees, readFields, readPieces_piecesOf]
  dsimp only
  rw [h]

theorem readFields_append (h : readFields field s (memberTrees members) = .ok s')
    (hmore : readFields field s' (memberTrees more) = .ok s'') :
    readFields field s (memberTrees (members ++ more)) = .ok s'' := by
  induction members generalizing s with
  | nil =>
    cases h
    exact hmore
  | cons m rest ih =>
    rw [memberTrees, readFields, readPieces_piecesOf] at h
    dsimp only at h
    cases hm : field s m.1 m.2.tree with
    | error e => exact absurd h (by simp [hm])
    | ok next =>
      rw [hm] at h
      rw [List.cons_append, readFields_cons hm, ih h]

/-- What every field keeps is kept by all the fields of an object. -/
theorem readFields_invariant {P : σ → Prop} {trees : List (List Piece × Tree)}
    (hfield : ∀ {s key t s'}, P s → field s key t = .ok s' → P s') (hs : P s)
    (h : readFields field s trees = .ok s') : P s' := by
  induction trees generalizing s with
  | nil =>
    cases h
    exact hs
  | cons m rest ih =>
    rw [readFields] at h
    cases hkey : readPieces m.1 with
    | error e => exact absurd h (by simp [hkey])
    | ok key =>
      cases hm : field s key m.2 with
      | error e => exact absurd h (by simp [hkey, hm])
      | ok next =>
        simp only [hkey, hm] at h
        exact ih (hfield hs hm) h

/-- What every field keeps is kept by the items of an array that are read as fields. -/
theorem readPlaces_invariant {P : σ → Prop} {names : List String} {items : List Tree}
    (hfield : ∀ {s key t s'}, P s → field s key t = .ok s' → P s') (hs : P s)
    (h : readPlaces field s names items = .ok s') : P s' := by
  induction names generalizing s items with
  | nil =>
    cases h
    exact hs
  | cons name names ih =>
    cases items with
    | nil =>
      cases h
      exact hs
    | cons t rest =>
      rw [readPlaces] at h
      cases ht : field s name t with
      | error e => exact absurd h (by simp [ht])
      | ok next =>
        rw [ht] at h
        exact ih (hfield hs ht) h

end

theorem once_eq_ok {α : Type} {name : String} {old v : Option α} {read : Reading α}
    (h : once name old read = .ok v) : ∃ a, read = .ok a ∧ v = some a := by
  rw [once] at h
  split at h
  · exact absurd h (by simp)
  · obtain ⟨a, ha, rfl⟩ := map_eq_ok_iff.mp h
    exact ⟨a, ha, rfl⟩

theorem isFinite_of_readFloat {t : Tree} {x : Float} (h : t.readFloat = .ok x) :
    x.isFinite = true := by
  rw [readFloat.eq_def] at h
  split at h
  · obtain ⟨n, hn, rfl⟩ := map_eq_ok_iff.mp h
    exact Number.isFinite_toFloat (proper_of_readNumeral hn)
  · exact absurd h (mismatch_ne_ok _ _ _)

theorem readList_eq_ok {α : Type} {read : Tree → Reading α} {t : Tree} {l : List α}
    (h : t.readList read = .ok l) : ∃ items : List Tree, items.mapM read = .ok l := by
  rw [readList.eq_def] at h
  split at h
  · exact ⟨_, h⟩
  · exact absurd h (mismatch_ne_ok _ _ _)

theorem readOption_eq_ok {α : Type} {read : Tree → Reading α} {t : Tree} {v : Option α}
    (h : t.readOption read = .ok v) : v = none ∨ ∃ a, read t = .ok a ∧ v = some a := by
  by_cases ht : t = .null
  · subst ht
    cases h
    exact .inl rfl
  · rw [readOption_of_ne_null ht] at h
    obtain ⟨a, ha, rfl⟩ := map_eq_ok_iff.mp h
    exact .inr ⟨a, ha, rfl⟩

/-! ## One member among others -/

section

variable {σ : Type} {field : σ → String → Tree → Reading σ} {s s' : σ} {pieces : List Piece} {key : String}
  {t : Tree} {before after : List (List Piece × Tree)}

/-- Every member of an object that is read is read. -/
theorem exists_of_readFields_mem (hkey : readPieces pieces = .ok key)
    (h : readFields field s (before ++ (pieces, t) :: after) = .ok s') :
    ∃ s₁ s₂, field s₁ key t = .ok s₂ := by
  induction before generalizing s with
  | nil =>
    rw [List.nil_append, readFields, hkey] at h
    cases hfield : field s key t with
    | error e => exact absurd h (by simp [hfield])
    | ok next => exact ⟨s, next, hfield⟩
  | cons m before ih =>
    rw [List.cons_append, readFields] at h
    cases hname : readPieces m.1 with
    | error e => exact absurd h (by simp [hname])
    | ok name =>
      cases hfield : field s name m.2 with
      | error e => exact absurd h (by simp [hname, hfield])
      | ok next =>
        simp only [hname, hfield] at h
        exact ih h

/-- A change of the state that the other members do not see may be made after them. -/
theorem readFields_change {change : σ → σ}
    (hcomm : ∀ s name t, name ≠ key → field (change s) name t = (field s name t).map change)
    (hothers : ∀ m ∈ after, readPieces m.1 ≠ .ok key) :
    readFields field (change s) after = (readFields field s after).map change := by
  induction after generalizing s with
  | nil => rfl
  | cons m after ih =>
    obtain ⟨hm, hafter⟩ := List.forall_mem_cons.mp hothers
    rw [readFields, readFields]
    cases hname : readPieces m.1 with
    | error e => rfl
    | ok name =>
      have hne : name ≠ key := fun h => hm (h ▸ hname)
      dsimp only
      rw [hcomm s name m.2 hne]
      cases field s name m.2 with
      | error e => rfl
      | ok next => exact ih hafter

/-- **A member that only changes the state may be read after all others.** It may rely on what the
others keep, such as that its field has not been given. -/
theorem readFields_insert {change : σ → σ} {Unread : σ → Prop} (hkey : readPieces pieces = .ok key)
    (hfield : ∀ s, Unread s → field s key t = .ok (change s))
    (hkeep : ∀ s name t s', name ≠ key → Unread s → field s name t = .ok s' → Unread s')
    (hcomm : ∀ s name t, name ≠ key → field (change s) name t = (field s name t).map change)
    (hothers : ∀ m ∈ before ++ after, readPieces m.1 ≠ .ok key) (hs : Unread s) :
    readFields field s (before ++ (pieces, t) :: after)
      = (readFields field s (before ++ after)).map change := by
  induction before generalizing s with
  | nil =>
    rw [List.nil_append, List.nil_append, readFields, hkey]
    dsimp only
    rw [hfield s hs]
    exact readFields_change hcomm hothers
  | cons m before ih =>
    obtain ⟨hm, hrest⟩ := List.forall_mem_cons.mp hothers
    rw [List.cons_append, List.cons_append, readFields, readFields]
    cases hname : readPieces m.1 with
    | error e => rfl
    | ok name =>
      have hne : name ≠ key := fun h => hm (h ▸ hname)
      dsimp only
      cases hnext : field s name m.2 with
      | error e => rfl
      | ok next => exact ih hrest (hkeep s name m.2 next hne hs hnext)

end

end Tree

end Dataflow.Json
