import Dataflow.Proofs.Window
/-!
# Recent values under a key

An object that keeps lists of samples under `nodeValue` is an older form of recent values. Main
statement: it means what the last of these lists means by itself, also in the data of a node, and it is
refused when any of them is no list of samples, even one that a later one replaces
(`RecentValues.keyed_means_list`). Of the other members only the keys are read, since each has to be
compared with `nodeValue`; so what stands under them may be anything, but a key that is no text is
refused (`RecentValues.unpaired_key_refused`).
-/
set_option autoImplicit false

namespace Dataflow

open Json

/-! ## Samples -/

/-- A whole number of 64 bits, signed or unsigned, or one whose nearest double is finite. -/
def Json.Numeral.InRange (n : Numeral) : Prop :=
  (n.whole = true ∧ n.negative = false ∧ n.decimal.significand < Number.unsignedBound) ∨
  (n.whole = true ∧ n.negative = true ∧ 0 < n.decimal.significand ∧
    n.decimal.significand ≤ Number.signedBound) ∨
  (n.decimal.toSignedFloat n.negative).isInf = false

theorem Json.exists_readNumeral_iff {n : Numeral} : (∃ v, readNumeral n = .ok v) ↔ n.InRange := by
  rw [readNumeral, Numeral.InRange]
  dsimp only
  split
  · next hunsigned =>
    simp only [Bool.and_eq_true, Bool.not_eq_true', decide_eq_true_eq] at hunsigned
    exact iff_of_true ⟨_, rfl⟩ (.inl ⟨hunsigned.1.1, hunsigned.1.2, hunsigned.2⟩)
  · next hunsigned =>
    simp only [Bool.and_eq_true, Bool.not_eq_true', decide_eq_true_eq, not_and] at hunsigned
    split
    · next hsigned =>
      simp only [Bool.and_eq_true, decide_eq_true_eq] at hsigned
      exact iff_of_true ⟨_, rfl⟩
        (.inr (.inl ⟨hsigned.1.1.1, hsigned.1.1.2, hsigned.1.2, hsigned.2⟩))
    · next hsigned =>
      simp only [Bool.and_eq_true, decide_eq_true_eq, not_and] at hsigned
      split
      · next hinf =>
        refine iff_of_false (by simp) ?_
        rintro (⟨hwhole, hsign, hsize⟩ | ⟨hwhole, hsign, hpos, hsize⟩ | hfinite)
        · exact hunsigned ⟨hwhole, hsign⟩ hsize
        · exact hsigned ⟨⟨hwhole, hsign⟩, hpos⟩ hsize
        · rw [hinf] at hfinite
          exact absurd hfinite (by decide)
      · next hfinite => exact iff_of_true ⟨_, rfl⟩ (.inr (.inr (by simpa using hfinite)))

namespace RecentValues

/-- The sample that an item of a list stands for: `null` for what is not a number, a number for the
double that it counts as. -/
def StandsFor : Tree → Float → Prop
  | .null, x => x = Number.nan
  | .number n, x => ∃ v, readNumeral n = .ok v ∧ v.toFloat = x
  | _, _ => False

/-- An item that stands for a sample. -/
def IsSample : Tree → Prop
  | .null => True
  | .number n => n.InRange
  | _ => False

def IsSampleList : Tree → Prop
  | .array items => ∀ t ∈ items, IsSample t
  | _ => False

theorem isSample_iff {t : Tree} : IsSample t ↔ ∃ x, StandsFor t x := by
  cases t with
  | null => exact iff_of_true trivial ⟨_, rfl⟩
  | number n =>
    rw [IsSample, ← exists_readNumeral_iff]
    constructor
    · rintro ⟨v, hv⟩
      exact ⟨_, v, hv, rfl⟩
    · rintro ⟨-, v, hv, -⟩
      exact ⟨v, hv⟩
  | _ => simp [IsSample, StandsFor]

theorem readSample_eq_ok_iff {t : Tree} {x : Float} : readSample t = .ok x ↔ StandsFor t x := by
  rw [readSample]
  cases t with
  | null => simp [Tree.readOption, StandsFor, Except.map, eq_comm]
  | number n =>
    rw [Tree.readOption_of_ne_null (by simp), Tree.readFloat, StandsFor]
    cases readNumeral n with
    | error e => simp [Except.map]
    | ok v => simp [Except.map]
  | _ =>
    rw [Tree.readOption_of_ne_null (by simp), Tree.readFloat]
    simp only [StandsFor, iff_false, map_eq_ok_iff, not_exists, not_and]
    · rintro - ⟨x, hx, -⟩
      exact absurd hx (Tree.mismatch_ne_ok _ _ _)
    all_goals simp

theorem exists_forall₂_standsFor_iff {items : List Tree} :
    (∃ samples, List.Forall₂ StandsFor items samples) ↔ ∀ t ∈ items, IsSample t := by
  induction items with
  | nil => simp
  | cons t items ih =>
    rw [List.forall_mem_cons, ← ih, isSample_iff]
    constructor
    · rintro ⟨_, h⟩
      cases h with
      | cons hx hxs => exact ⟨⟨_, hx⟩, _, hxs⟩
    · rintro ⟨⟨x, hx⟩, xs, hxs⟩
      exact ⟨x :: xs, .cons hx hxs⟩

/-- A list of samples is read as the samples that its items stand for. -/
theorem mapM_readSample_eq_ok_iff {items : List Tree} {samples : List Float} :
    items.mapM readSample = .ok samples ↔ List.Forall₂ StandsFor items samples := by
  simp only [mapM_eq_ok_iff_forall₂, readSample_eq_ok_iff]

theorem exists_readList_iff {t : Tree} :
    (∃ samples, t.readList readSample = .ok samples) ↔ IsSampleList t := by
  rw [Tree.readList.eq_def]
  split
  · simp only [mapM_readSample_eq_ok_iff, exists_forall₂_standsFor_iff, IsSampleList]
  · next hlist =>
    rw [IsSampleList.eq_def]
    split
    · next items => exact absurd rfl (hlist items)
    · exact iff_of_false (fun ⟨_, h⟩ => Tree.mismatch_ne_ok _ _ _ h) id

/-! ## The members of an object -/

/-- The keys of an object are texts: each escape of a surrogate in them is one of a pair. -/
def HasTextKeys (members : List (List Piece × Tree)) : Prop :=
  ∀ m ∈ members, ∃ key, readPieces m.1 = .ok key

/-- **The members of an object are read when all keys are texts and all lists under `nodeValue` are
lists of samples**, whatever the others are. -/
theorem exists_readFields_keyed_iff {members : List (List Piece × Tree)} {old : RecentValues} :
    (∃ r, Tree.readFields readKeyedSamples old members = .ok r)
      ↔ HasTextKeys members ∧ ∀ t ∈ keyedLists members, IsSampleList t := by
  -- On the members, for all states: what was read before decides nothing about what is read later.
  induction members generalizing old with
  | nil => exact iff_of_true ⟨old, rfl⟩ ⟨by simp [HasTextKeys], by simp [keyedLists]⟩
  | cons m rest ih =>
    rw [HasTextKeys, List.forall_mem_cons, Tree.readFields]
    cases hkey : readPieces m.1 with
    | error e => simp
    | ok key =>
      have hrest : (∀ m ∈ rest, ∃ key, readPieces m.1 = .ok key) ↔ HasTextKeys rest := Iff.rfl
      dsimp only
      rw [keyedLists_cons hkey, hrest, readKeyedSamples]
      by_cases hname : key = "nodeValue"
      · rw [if_pos hname, if_pos hname, List.forall_mem_cons, ← exists_readList_iff]
        cases hlist : m.2.readList readSample with
        | error e => simp [Except.map]
        | ok samples => simp [Except.map, ih]
      · rw [if_neg hname, if_neg hname]
        simp [ih]

/-- The list form of an object: the last list that it keeps under `nodeValue`, or nothing. -/
def listForm (members : List (List Piece × Tree)) : Tree :=
  (keyedLists members).getLast?.getD .null

theorem listForm_cases {members : List (List Piece × Tree)}
    (hlists : ∀ t ∈ keyedLists members, IsSampleList t) :
    ((keyedLists members).getLast? = none ∧ listForm members = .null) ∨
    ∃ items, (keyedLists members).getLast? = some (.array items) ∧ listForm members = .array items ∧
      ∀ t ∈ items, IsSample t := by
  rw [listForm]
  cases hlast : (keyedLists members).getLast? with
  | none => exact .inl ⟨rfl, rfl⟩
  | some t =>
    have hlist := hlists t (List.mem_of_getLast? hlast)
    cases t with
    | array items => exact .inr ⟨items, rfl, rfl, hlist⟩
    | _ => exact absurd hlist (by simp [IsSampleList])

/-- The list form is read as the samples that its items stand for. -/
theorem read_listForm {members : List (List Piece × Tree)}
    (hlists : ∀ t ∈ keyedLists members, IsSampleList t) :
    ∃ samples, List.Forall₂ StandsFor (listItems (listForm members)) samples ∧
      read (listForm members) = .ok (ofList samples) := by
  rcases listForm_cases hlists with ⟨-, hform⟩ | ⟨items, -, hform, hitems⟩
  · rw [hform]
    exact ⟨[], .nil, rfl⟩
  · obtain ⟨samples, hsamples⟩ := exists_forall₂_standsFor_iff.mpr hitems
    refine ⟨samples, hform ▸ hsamples, ?_⟩
    rw [hform, read, mapM_readSample_eq_ok_iff.mpr hsamples]
    rfl

/-- An object whose members are read means its list form. -/
theorem read_object_eq {members : List (List Piece × Tree)} (hkeys : HasTextKeys members)
    (hlists : ∀ t ∈ keyedLists members, IsSampleList t) :
    read (.object members) = read (listForm members) := by
  obtain ⟨r, hr⟩ := exists_readFields_keyed_iff.mpr ⟨hkeys, hlists⟩
  have hobject : read (.object members) = .ok r := hr
  rw [hobject, eq_of_readFields_keyed hr]
  rcases listForm_cases hlists with ⟨hlast, hform⟩ | ⟨items, hlast, hform, hitems⟩
  · rw [hlast, hform]
    rfl
  · -- Under a key and by itself a list is read by the same traversal of its items.
    obtain ⟨samples, hsamples⟩ := exists_forall₂_standsFor_iff.mpr hitems
    have hread := mapM_readSample_eq_ok_iff.mpr hsamples
    rw [hlast, hform, Option.map_some, Option.getD_some, listItems, samplesOf_of_mapM hread, read, hread]
    rfl

end RecentValues

/-! ## In the data of a node -/

theorem NodeDataFields.recentValues_field {f f' : NodeDataFields} {key : String} {t : Tree}
    (hne : key ≠ "recentValues") (h : f.field key t = .ok f') : f'.recentValues = f.recentValues := by
  rw [NodeDataFields.field.eq_def] at h
  split at h
  case h_4 => exact absurd rfl hne
  all_goals
    obtain ⟨v, hv, rfl⟩ := map_eq_ok_iff.mp h
    rfl

theorem NodeDataFields.field_setRecentValues {f : NodeDataFields} {key : String} {t : Tree}
    {r : RecentValues} (hne : key ≠ "recentValues") :
    field { f with recentValues := some r } key t
      = (f.field key t).map ({ · with recentValues := some r }) := by
  rw [NodeDataFields.field.eq_def, NodeDataFields.field.eq_def]
  split
  · cases Tree.once _ f.typeName t.readText <;> rfl
  · cases Tree.once _ f.displayName (t.readOption Tree.readText) <;> rfl
  · cases Tree.once _ f.tickEntries (readTickEntries t) <;> rfl
  · exact absurd rfl hne
  · cases Tree.once _ f.heldValue (t.readOption Tree.readFloat) <;> rfl
  · cases t.readValue roomOfProperty <;> rfl

/-- Recent values that are read enter the data of a node and change nothing else there. -/
theorem NodeData.read_insert_recentValues {t : Tree} {r : RecentValues} {pieces : List Piece}
    {before after : List (List Piece × Tree)} (hread : RecentValues.read t = .ok r)
    (hkey : readPieces pieces = .ok "recentValues")
    (hothers : ∀ m ∈ before ++ after, readPieces m.1 ≠ .ok "recentValues") :
    NodeData.read (.object (before ++ (pieces, t) :: after))
      = (NodeData.read (.object (before ++ after))).map ({ · with recentValues := r }) := by
  have hfield (f : NodeDataFields) (hf : f.recentValues = none) :
      f.field "recentValues" t = .ok { f with recentValues := some r } := by
    simp [NodeDataFields.field, Tree.once, hf, hread, Except.map]
  rw [NodeData.read, NodeData.read, Tree.readFields_insert hkey hfield
    (fun _ _ _ _ hne hf h => (NodeDataFields.recentValues_field hne h).trans hf)
    (fun _ _ _ hne => NodeDataFields.field_setRecentValues hne) hothers rfl]
  cases Tree.readFields NodeDataFields.field {} (before ++ after) <;> rfl

/-! ## The two forms -/

namespace RecentValues

/-- A tree is read as a buffer: by itself, from every text that spells it, and in the data of a node,
where the buffer is all that it brings. -/
structure ReadsAs (t : Tree) (r : RecentValues) : Prop where
  tree : read t = .ok r
  text : ∀ s, Tree.ofText? s = some t → ofText s = .ok r
  data : ∀ pieces before after, readPieces pieces = .ok "recentValues" →
    (∀ m ∈ before ++ after, readPieces m.1 ≠ .ok "recentValues") →
    NodeData.read (.object (before ++ (pieces, t) :: after))
      = (NodeData.read (.object (before ++ after))).map ({ · with recentValues := r })

/-- A tree is refused: by itself, from every text that spells it, and in the data of a node, whatever
else is there. -/
structure Refused (t : Tree) : Prop where
  tree : ∀ r, read t ≠ .ok r
  text : ∀ s r, Tree.ofText? s = some t → ofText s ≠ .ok r
  data : ∀ pieces before after d, readPieces pieces = .ok "recentValues" →
    NodeData.read (.object (before ++ (pieces, t) :: after)) ≠ .ok d

theorem ofText_eq_ok_iff {s : String} {t : Tree} {r : RecentValues} (ht : Tree.ofText? s = some t) :
    ofText s = .ok r ↔ read t = .ok r := by
  rw [ofText, readText, ht]
  dsimp only
  split <;> simp_all

theorem ReadsAs.of_read {t : Tree} {r : RecentValues} (h : read t = .ok r) : ReadsAs t r where
  tree := h
  text _ ht := (ofText_eq_ok_iff ht).mpr h
  data _ _ _ hkey hothers := NodeData.read_insert_recentValues h hkey hothers

theorem Refused.of_read {t : Tree} (h : ∀ r, read t ≠ .ok r) : Refused t where
  tree := h
  text _ r ht hr := h r ((ofText_eq_ok_iff ht).mp hr)
  data _ _ _ _ hkey hd := by
    obtain ⟨fields, hfields, -⟩ := map_eq_ok_iff.mp hd
    obtain ⟨f₁, f₂, hfield⟩ := Tree.exists_of_readFields_mem hkey hfields
    obtain ⟨v, hv, -⟩ := map_eq_ok_iff.mp hfield
    obtain ⟨r, hr, -⟩ := Tree.once_eq_ok hv
    exact h r hr

/-- **An object of lists under `nodeValue` means what the last of them means.** When all its keys are
texts and all these lists are lists of samples, the object and its list form are read as one buffer,
alone and in the data of a node: the samples that the items of the last list stand for, with room for
all of them and at least the default; without such a list it is the empty buffer. When a key is no
text or one of these lists is no list of samples, the object is refused. What stands under the other
keys does not matter. -/
theorem keyed_means_list (members : List (List Piece × Tree)) :
    (HasTextKeys members → (∀ t ∈ keyedLists members, IsSampleList t) →
      ∃ r, ReadsAs (.object members) r ∧ ReadsAs (listForm members) r ∧
        List.Forall₂ StandsFor (listItems (listForm members)) r.samples ∧
        r.capacity = max 16 r.samples.length ∧ (keyedLists members = [] → r = empty)) ∧
    ((¬ HasTextKeys members ∨ ∃ t ∈ keyedLists members, ¬ IsSampleList t) →
      Refused (.object members)) := by
  constructor
  · intro hkeys hlists
    obtain ⟨samples, hsamples, hlist⟩ := read_listForm hlists
    have hobject := (read_object_eq hkeys hlists).trans hlist
    refine ⟨ofList samples, .of_read hobject, .of_read hlist, hsamples, Nat.max_comm _ _, ?_⟩
    intro hnone
    rw [listForm, hnone] at hlist
    exact (Except.ok.inj hlist).symm
  · intro hbad
    refine .of_read fun r hr => ?_
    obtain ⟨hkeys, hlists⟩ := exists_readFields_keyed_iff.mp ⟨r, hr⟩
    rcases hbad with hkey | ⟨t, ht, hlist⟩
    · exact hkey hkeys
    · exact hlist (hlists t ht)

/-- The members `"a": 1e999`, `"nodeValue": [1]` and `"nodeValue": [null, 2.5]`. The number under the
first key is out of range. -/
def doublyKeyed : List (List Piece × Tree) :=
  [([.char 'a'], .number ⟨false, ⟨1, 999⟩, false⟩),
    ("nodeValue".toList.map .char, .array [.number ⟨false, ⟨1, 0⟩, true⟩]),
    ("nodeValue".toList.map .char, .array [.null, .number ⟨false, ⟨25, -1⟩, false⟩])]

/-- The last of two lists counts. An entry that is no list is refused, though both lists come after it. -/
theorem doublyKeyed_read : (∃ r, ReadsAs (.object doublyKeyed) r ∧
      ReadsAs (.array [.null, .number ⟨false, ⟨25, -1⟩, false⟩]) r) ∧
    Refused (.object (("nodeValue".toList.map .char, .null) :: doublyKeyed)) := by
  have hlists : keyedLists doublyKeyed = [.array [.number ⟨false, ⟨1, 0⟩, true⟩],
      .array [.null, .number ⟨false, ⟨25, -1⟩, false⟩]] := by cbv
  have hform : listForm doublyKeyed = .array [.null, .number ⟨false, ⟨25, -1⟩, false⟩] := by
    rw [listForm, hlists]
    rfl
  have hone : Numeral.InRange ⟨false, ⟨1, 0⟩, true⟩ := .inl ⟨rfl, rfl, by decide⟩
  have hhalf : Numeral.InRange ⟨false, ⟨25, -1⟩, false⟩ := .inr (.inr (by decide +kernel))
  constructor
  · have hkeys : HasTextKeys doublyKeyed := by
      simp only [HasTextKeys, doublyKeyed, List.forall_mem_cons, List.not_mem_nil]
      exact ⟨⟨"a", by cbv⟩, ⟨"nodeValue", by cbv⟩, ⟨"nodeValue", by cbv⟩, fun _ h => h.elim⟩
    obtain ⟨r, hobject, hlist, -⟩ := (keyed_means_list doublyKeyed).1 hkeys (by
      rw [hlists]
      simp [IsSampleList, IsSample, hone, hhalf])
    exact ⟨r, hobject, hform ▸ hlist⟩
  · have hkey : readPieces ("nodeValue".toList.map .char) = .ok "nodeValue" := by cbv
    refine (keyed_means_list _).2 (.inr ⟨.null, ?_, id⟩)
    rw [keyedLists_cons hkey, if_pos rfl]
    exact List.mem_cons_self

/-- The members `"\ud800": 0` and `"nodeValue": [1]`. -/
def unpairedKey : List (List Piece × Tree) :=
  [([.unit 0xd800], .number ⟨false, ⟨0, 0⟩, true⟩),
    ("nodeValue".toList.map .char, .array [.number ⟨false, ⟨1, 0⟩, true⟩])]

/-- **A key that is no text is refused**, although nothing under it is kept. -/
theorem unpaired_key_refused :
    Tree.ofText? "\x7b\"\\ud800\": 0, \"nodeValue\": [1]\x7d" = some (.object unpairedKey) ∧
    (∀ t ∈ keyedLists unpairedKey, IsSampleList t) ∧ (∃ r, ReadsAs (listForm unpairedKey) r) ∧
    ofText "\x7b\"\\ud800\": 0, \"nodeValue\": [1]\x7d" = .error (.misfit .brokenSurrogate) := by
  have hlists : keyedLists unpairedKey = [.array [.number ⟨false, ⟨1, 0⟩, true⟩]] := by cbv
  have hsamples : ∀ t ∈ keyedLists unpairedKey, IsSampleList t := by
    have hone : Numeral.InRange ⟨false, ⟨1, 0⟩, true⟩ := .inl ⟨rfl, rfl, by decide⟩
    rw [hlists]
    simp [IsSampleList, IsSample, hone]
  obtain ⟨samples, -, hread⟩ := read_listForm hsamples
  exact ⟨by cbv, hsamples, ⟨_, .of_read hread⟩, by cbv⟩

end RecentValues

end Dataflow
