import Mathlib.Data.List.DropRight
import Mathlib.Data.List.Nodup
import Mathlib.Data.List.Perm.Subperm
/-!
# Lists

What the theory needs of lists beyond the library: lists that grow at their end, lists that are split at
an element, and rows that are found under their ids.
-/
set_option autoImplicit false

namespace Dataflow

/-! ## The end of a list -/

/-- Where a list with one more element at its end can be split: at that element or before it. -/
theorem split_concat {α : Type} {l pre post : List α} {a x : α} (h : l ++ [a] = pre ++ x :: post) :
    (pre = l ∧ x = a ∧ post = []) ∨ ∃ mid, post = mid ++ [a] ∧ l = pre ++ x :: mid := by
  rcases List.eq_nil_or_concat post with rfl | ⟨mid, y, rfl⟩
  · left
    obtain ⟨hpre, hx⟩ := List.append_inj' h rfl
    exact ⟨hpre.symm, (List.cons.inj hx).1.symm, rfl⟩
  · right
    rw [List.concat_eq_append, ← List.cons_append, ← List.append_assoc] at h
    obtain ⟨hl, hy⟩ := List.append_inj' h rfl
    exact ⟨mid, by rw [List.concat_eq_append, hy], hl⟩

theorem getElem?_concat_eq_some_iff {α : Type} {l : List α} {a b : α} {i : Nat} :
    (l ++ [a])[i]? = some b ↔ l[i]? = some b ∨ (i = l.length ∧ a = b) := by
  rcases Nat.lt_trichotomy i l.length with hlt | rfl | hgt
  · rw [List.getElem?_append_left hlt, or_iff_left fun h => Nat.ne_of_lt hlt h.1]
  · simp
  · have hpast : (l ++ [a]).length ≤ i := by
      rw [List.length_append, List.length_singleton]
      exact hgt
    rw [List.getElem?_eq_none hpast, List.getElem?_eq_none (Nat.le_of_lt hgt)]
    simp [Nat.ne_of_gt hgt]

theorem not_mem_of_nodup_concat {α : Type} {f : α → String} {l : List α} {a : α}
    (h : ((l ++ [a]).map f).Nodup) : f a ∉ l.map f := by
  rw [List.map_append, List.nodup_append] at h
  intro hmem
  exact h.2.2 (f a) hmem (f a) (List.mem_singleton_self _) rfl

theorem nodup_of_nodup_append {α : Type} {f : α → String} {l l' : List α}
    (h : ((l ++ l').map f).Nodup) : (l.map f).Nodup := by
  rw [List.map_append] at h
  exact h.of_append_left

theorem rtake_concat_rtake {α : Type} (l : List α) (x : α) (n : Nat) :
    (l.rtake n ++ [x]).rtake n = (l ++ [x]).rtake n := by
  simp only [List.rtake, List.length_append, List.length_drop, List.length_singleton]
  have hle : l.length - n ≤ l.length := Nat.sub_le _ _
  rw [← List.drop_append_of_le_length hle, List.drop_drop]
  congr 1
  omega

theorem eraseDups_concat (l : List String) (a : String) :
    (l ++ [a]).eraseDups = if a ∈ l then l.eraseDups else l.eraseDups ++ [a] := by
  rw [List.eraseDups_append]
  split
  · next ha =>
    have hnothing : [a].removeAll l = [] := by simp [List.removeAll, ha]
    rw [hnothing, List.eraseDups_nil, List.append_nil]
  · next ha =>
    have hnew : [a].removeAll l = [a] := by simp [List.removeAll, ha]
    rw [hnew]
    rfl

theorem findSome?_reverse_eq {α β : Type} (f : α → Option β) (l : List α) :
    l.reverse.findSome? f = ((l.filter fun a => (f a).isSome).getLast?).bind f := by
  induction l using List.reverseRecOn with
  | nil => rfl
  | append_singleton l a ih =>
    rw [List.reverse_append, List.filter_append]
    cases hfa : f a with
    | none => simp [hfa, ih]
    | some b => simp [hfa]

/-- The last element with a property is followed by none that has it. -/
theorem getLast?_filter_eq_some_iff {α : Type} {f : α → Bool} {l : List α} {a : α} :
    (l.filter f).getLast? = some a ↔
      ∃ before after, l = before ++ a :: after ∧ f a ∧ ∀ b ∈ after, ¬ f b := by
  rw [List.getLast?_eq_some_iff]
  constructor
  · rintro ⟨kept, hkept⟩
    obtain ⟨l₁, l₂, rfl, -, hlast⟩ := List.filter_eq_append_iff.mp hkept
    obtain ⟨skipped, after, rfl, -, ha, hafter⟩ := List.filter_eq_cons_iff.mp hlast
    refine ⟨l₁ ++ skipped, after, by rw [List.append_assoc], ha, ?_⟩
    exact List.filter_eq_nil_iff.mp hafter
  · rintro ⟨before, after, rfl, ha, hafter⟩
    refine ⟨before.filter f, ?_⟩
    rw [List.filter_append, List.filter_cons_of_pos ha, List.filter_eq_nil_iff.mpr hafter]

theorem getLast?_filter_of_getLast? {α : Type} {f : α → Bool} {l : List α} {a : α}
    (h : l.getLast? = some a) (ha : f a) : (l.filter f).getLast? = some a := by
  obtain ⟨rest, rfl⟩ := List.getLast?_eq_some_iff.mp h
  simp [ha]

/-! ## Splitting a list at an element -/

/-- A split of a list that a map made is the image of a split. -/
theorem exists_split_of_map {α β : Type} {g : α → β} {l : List α}
    {before after : List β} {b : β} (h : l.map g = before ++ b :: after) :
    ∃ pre a post, l = pre ++ a :: post ∧ pre.map g = before ∧ g a = b := by
  obtain ⟨pre, rest, rfl, hpre, hrest⟩ := List.map_eq_append_iff.mp h
  obtain ⟨a, post, rfl, ha, -⟩ := List.map_eq_cons_iff.mp hrest
  exact ⟨pre, a, post, rfl, hpre, ha⟩

/-- A list is split at its last `a` in one way. -/
theorem append_cons_inj_of_notMem_right {α : Type} {l l' d d' : List α} {a : α} (hd : a ∉ d)
    (hd' : a ∉ d') (h : l ++ a :: d = l' ++ a :: d') : l = l' ∧ d = d' := by
  rcases List.append_eq_append_iff.mp h with ⟨mid, hl, hmid⟩ | ⟨mid, hl, hmid⟩
  · cases mid with
    | nil =>
      rw [List.append_nil] at hl
      exact ⟨hl.symm, (List.cons.inj hmid).2⟩
    | cons b rest =>
      have hrest := (List.cons.inj hmid).2
      exact absurd (hrest ▸ List.mem_append_right rest List.mem_cons_self) hd
  · cases mid with
    | nil =>
      rw [List.append_nil] at hl
      exact ⟨hl, (List.cons.inj hmid).2.symm⟩
    | cons b rest =>
      have hrest := (List.cons.inj hmid).2
      exact absurd (hrest ▸ List.mem_append_right rest List.mem_cons_self) hd'

/-- A list is split at its first `a` in one way. -/
theorem append_cons_inj_of_notMem_left {α : Type} {l l' d d' : List α} {a : α} (hl : a ∉ l)
    (hl' : a ∉ l') (h : l ++ a :: d = l' ++ a :: d') : l = l' ∧ d = d' := by
  have hreverse : d.reverse ++ a :: l.reverse = d'.reverse ++ a :: l'.reverse := by
    simpa using congrArg List.reverse h
  obtain ⟨hd, hl⟩ := append_cons_inj_of_notMem_right (by simpa using hl) (by simpa using hl') hreverse
  exact ⟨List.reverse_injective hl, List.reverse_injective hd⟩

/-- What stands in front of every occurrence of an element comes before it. -/
theorem idxOf_lt_of_before {l : List String} {a b : String} (hnodup : l.Nodup)
    (hb : b ∈ l) (hbefore : ∀ pre post, l = pre ++ b :: post → a ∈ pre) :
    a ∈ l ∧ l.idxOf a < l.idxOf b := by
  obtain ⟨pre, post, hsplit⟩ := List.append_of_mem hb
  have ha := hbefore pre post hsplit
  have hnotin : b ∉ pre := by
    intro hin
    rw [hsplit, List.nodup_append] at hnodup
    exact hnodup.2.2 b hin b List.mem_cons_self rfl
  rw [hsplit, List.idxOf_append_of_mem ha, List.idxOf_append_of_notMem hnotin]
  exact ⟨List.mem_append_left _ ha, Nat.lt_add_right _ (List.idxOf_lt_length_of_mem ha)⟩

/-! ## Lists without duplicates -/

/-- Two sublists of a list without duplicates that have the same members are equal. -/
theorem eq_of_sublist_of_mem_iff {α : Type} {l m whole : List α} (hwhole : whole.Nodup)
    (hl : l.Sublist whole) (hm : m.Sublist whole) (hmem : ∀ a, a ∈ l ↔ a ∈ m) : l = m := by
  have hperm : l.Perm m :=
    (List.perm_ext_iff_of_nodup (hwhole.sublist hl) (hwhole.sublist hm)).mpr hmem
  exact (hwhole.perm_iff_eq_of_sublist hl hm).mp hperm

/-- Where no two rows share an id, exactly the rows are found. -/
theorem find?_eq_some_iff_of_nodup {α : Type} {id : α → String} {rows : List α} {key : String}
    (h : (rows.map id).Nodup) {a : α} :
    rows.find? (id · == key) = some a ↔ a ∈ rows ∧ id a = key := by
  constructor
  · intro hfind
    exact ⟨List.mem_of_find?_eq_some hfind, by simpa using List.find?_some hfind⟩
  · rintro ⟨ha, rfl⟩
    cases hfind : rows.find? (id · == id a) with
    | none => exact absurd (List.find?_eq_none.mp hfind a ha) (by simp)
    | some b =>
      have hid : id b = id a := by simpa using List.find?_some hfind
      rw [List.inj_on_of_nodup_map h (List.mem_of_find?_eq_some hfind) ha hid]

end Dataflow
