import Mathlib.Data.List.Basic
import Dataflow.Diagram
/-!
# Cell texts

The four replacements of `escapeMarkup` together put one entity in the place of one character
(`escapeMarkup_eq_flatMap`). A single pass over the entities undoes this (`unescapeMarkup_escapeMarkup`),
so cells of different texts are different, and no cell has a character that markup uses. Main statement:
the texts of cells are exactly those without markup in which every ampersand starts an entity, and each of
them is the cell of the one text that the pass reads from it (`cell_exact`).
-/
set_option autoImplicit false

namespace Dataflow

/-! ## Entities -/

/-- What stands for a character in a cell. -/
def entity (c : Char) : List Char :=
  if c = '&' then "&amp;".toList
  else if c = '<' then "&lt;".toList
  else if c = '>' then "&gt;".toList
  else if c = '"' then "&quot;".toList
  else [c]

/-- A character that markup does not use stands for itself. -/
theorem entity_of_notMem {c : Char} (hc : c ∉ ['&', '<', '>', '"']) : entity c = [c] := by
  simp only [List.mem_cons, List.not_mem_nil, or_false, not_or] at hc
  obtain ⟨hamp, hopen, hclose, hquote⟩ := hc
  rw [entity, if_neg hamp, if_neg hopen, if_neg hclose, if_neg hquote]

theorem mark_cases {c : Char} (hc : c ∈ ['&', '<', '>', '"']) :
    c = '&' ∨ c = '<' ∨ c = '>' ∨ c = '"' := by
  simpa only [List.mem_cons, List.not_mem_nil, or_false] using hc

theorem entity_ne_nil (c : Char) : entity c ≠ [] := by
  by_cases hc : c ∈ ['&', '<', '>', '"']
  · rcases mark_cases hc with rfl | rfl | rfl | rfl <;> decide
  · rw [entity_of_notMem hc]
    exact List.cons_ne_nil c []

theorem notMem_entity {c : Char} (hc : c ∈ ['<', '>', '"']) (x : Char) : c ∉ entity x := by
  by_cases hx : x ∈ ['&', '<', '>', '"']
  · simp only [List.mem_cons, List.not_mem_nil, or_false] at hc
    rcases mark_cases hx with rfl | rfl | rfl | rfl <;> rcases hc with rfl | rfl | rfl <;> decide
  · rw [entity_of_notMem hx, List.mem_singleton]
    rintro rfl
    exact hx (List.mem_cons_of_mem _ hc)

/-- Only what stands for a mark has an ampersand, and it is the first character. -/
theorem of_entity_eq_append {c : Char} {before rest : List Char}
    (h : entity c = before ++ '&' :: rest) : c ∈ ['&', '<', '>', '"'] ∧ before = [] := by
  have hampersand : '&' ∈ entity c := by
    rw [h]
    exact List.mem_append_right before List.mem_cons_self
  by_cases hc : c ∈ ['&', '<', '>', '"']
  · refine ⟨hc, ?_⟩
    have htail : '&' ∉ (entity c).tail := by
      rcases mark_cases hc with rfl | rfl | rfl | rfl <;> decide
    cases before with
    | nil => rfl
    | cons x before =>
      rw [h] at htail
      exact absurd (List.mem_append_right before List.mem_cons_self) htail
  · rw [entity_of_notMem hc, List.mem_singleton] at hampersand
    exact absurd (hampersand ▸ List.mem_cons_self) hc

/-! ## Escaping -/

theorem replaceChar_singleton {c x : Char} (t : List Char) (hx : x ≠ c) : replaceChar c t [x] = [x] := by
  rw [replaceChar, List.flatMap_singleton, if_neg hx]

theorem replaceChar_flatMap (c : Char) (t : List Char) (f : Char → List Char) (s : List Char) :
    replaceChar c t (s.flatMap f) = s.flatMap fun x => replaceChar c t (f x) :=
  List.flatMap_assoc

/-- **The four replacements are one.** The ampersands of the entities come in only after those of the
text were replaced. -/
theorem escapeMarkup_eq_flatMap (s : List Char) : escapeMarkup s = s.flatMap entity := by
  have hstart : replaceChar '&' "&amp;".toList s
      = s.flatMap fun x => replaceChar '&' "&amp;".toList [x] := by
    simp [replaceChar]
  rw [escapeMarkup, hstart, replaceChar_flatMap, replaceChar_flatMap, replaceChar_flatMap]
  congr 1
  funext x
  by_cases hx : x ∈ ['&', '<', '>', '"']
  · rcases mark_cases hx with rfl | rfl | rfl | rfl <;> decide
  · rw [entity_of_notMem hx]
    simp only [List.mem_cons, List.not_mem_nil, or_false, not_or] at hx
    obtain ⟨hamp, hopen, hclose, hquote⟩ := hx
    rw [replaceChar_singleton _ hamp, replaceChar_singleton _ hopen, replaceChar_singleton _ hclose,
      replaceChar_singleton _ hquote]

theorem escapeMarkup_cons (c : Char) (s : List Char) :
    escapeMarkup (c :: s) = entity c ++ escapeMarkup s := by
  rw [escapeMarkup_eq_flatMap, escapeMarkup_eq_flatMap, List.flatMap_cons]

/-- The text of a cell, with the entities read in one pass from left to right. -/
def unescapeMarkup : List Char → List Char
  | '&' :: 'a' :: 'm' :: 'p' :: ';' :: rest => '&' :: unescapeMarkup rest
  | '&' :: 'l' :: 't' :: ';' :: rest => '<' :: unescapeMarkup rest
  | '&' :: 'g' :: 't' :: ';' :: rest => '>' :: unescapeMarkup rest
  | '&' :: 'q' :: 'u' :: 'o' :: 't' :: ';' :: rest => '"' :: unescapeMarkup rest
  | c :: rest => c :: unescapeMarkup rest
  | [] => []

theorem unescapeMarkup_entity (c : Char) (rest : List Char) :
    unescapeMarkup (entity c ++ rest) = c :: unescapeMarkup rest := by
  by_cases hc : c ∈ ['&', '<', '>', '"']
  · rcases mark_cases hc with rfl | rfl | rfl | rfl <;> rfl
  · have hamp : c ≠ '&' := fun hc' => hc (by simp [hc'])
    rw [entity_of_notMem hc, List.singleton_append, unescapeMarkup]
    all_goals exact fun _ hc' _ => hamp hc'

/-- **Escaping is undone** by reading the entities in one pass. -/
theorem unescapeMarkup_escapeMarkup (s : List Char) : unescapeMarkup (escapeMarkup s) = s := by
  induction s with
  | nil => rfl
  | cons c s ih => rw [escapeMarkup_cons, unescapeMarkup_entity, ih]

theorem cell_injective : Function.Injective cell := by
  intro s t h
  have hchars : escapeMarkup s.toList = escapeMarkup t.toList := String.ofList_injective h
  have hlists := congrArg unescapeMarkup hchars
  rw [unescapeMarkup_escapeMarkup, unescapeMarkup_escapeMarkup] at hlists
  exact String.toList_injective hlists

/-- No cell has a character with which markup begins, goes on or ends. -/
theorem notMem_escapeMarkup {c : Char} (hc : c ∈ ['<', '>', '"']) (s : List Char) :
    c ∉ escapeMarkup s := by
  rw [escapeMarkup_eq_flatMap]
  intro hmem
  obtain ⟨x, -, hx⟩ := List.mem_flatMap.mp hmem
  exact notMem_entity hc x hx

/-! ## The texts of cells -/

/-- A text in which nothing is markup: no character that opens, closes or quotes it, and every ampersand
starts one of the four entities. -/
structure IsCellText (t : List Char) : Prop where
  notMem : ∀ c ∈ ['<', '>', '"'], c ∉ t
  startsEntity : ∀ before after, t = before ++ '&' :: after →
    ∃ c ∈ ['&', '<', '>', '"'], entity c <+: '&' :: after

namespace IsCellText

variable {t : List Char}

theorem of_append {l : List Char} (h : IsCellText (l ++ t)) : IsCellText t where
  notMem := by
    intro c hc hmem
    exact h.notMem c hc (List.mem_append_right l hmem)
  startsEntity := by
    intro before after ht
    apply h.startsEntity (l ++ before) after
    rw [ht, List.append_assoc]

/-- What stands for one more character may come in front. -/
theorem entity_append (h : IsCellText t) (c : Char) : IsCellText (entity c ++ t) where
  notMem := by
    intro x hx hmem
    rcases List.mem_append.mp hmem with hentity | ht
    · exact notMem_entity hx c hentity
    · exact h.notMem x hx ht
  startsEntity := by
    intro before after hsplit
    -- The ampersand stands in the old text, or it is the first character of the new entity.
    rcases List.append_eq_append_iff.mp hsplit with ⟨rest, -, ht⟩ | ⟨rest, hentity, hafter⟩
    · exact h.startsEntity rest after ht
    · cases rest with
      | nil => exact h.startsEntity [] after hafter.symm
      | cons y rest =>
        obtain ⟨rfl, -⟩ := List.cons.inj hafter
        obtain ⟨hc, rfl⟩ := of_entity_eq_append hentity
        exact ⟨c, hc, t, hsplit⟩

/-- A text begins with what stands for some character. -/
theorem exists_eq_entity_append {x : Char} (h : IsCellText (x :: t)) :
    ∃ c rest, x :: t = entity c ++ rest := by
  by_cases hx : x = '&'
  · subst hx
    obtain ⟨c, -, rest, hrest⟩ := h.startsEntity [] t rfl
    exact ⟨c, rest, hrest.symm⟩
  · have hplain : x ∉ ['&', '<', '>', '"'] := by
      intro hmark
      rcases List.mem_cons.mp hmark with heq | hmark
      · exact hx heq
      · exact h.notMem x hmark List.mem_cons_self
    refine ⟨x, t, ?_⟩
    rw [entity_of_notMem hplain, List.singleton_append]

end IsCellText

theorem isCellText_escapeMarkup (s : List Char) : IsCellText (escapeMarkup s) := by
  induction s with
  | nil =>
    refine ⟨fun _ _ => List.not_mem_nil, ?_⟩
    intro before after h
    exact absurd h.symm (List.append_ne_nil_of_right_ne_nil before (List.cons_ne_nil '&' after))
  | cons c s ih =>
    rw [escapeMarkup_cons]
    exact ih.entity_append c

/-- **Every such text is the text of a cell**: escaping what was read from it gives it back. -/
theorem escapeMarkup_unescapeMarkup {t : List Char} (h : IsCellText t) :
    escapeMarkup (unescapeMarkup t) = t := by
  -- One step of the pass takes a whole entity, so the induction is on the length.
  induction hn : t.length using Nat.strongRecOn generalizing t with
  | ind n ih =>
    cases t with
    | nil => rfl
    | cons x t =>
      obtain ⟨c, rest, hsplit⟩ := h.exists_eq_entity_append
      rw [hsplit] at h hn
      have hpos : 0 < (entity c).length := List.length_pos_iff.mpr (entity_ne_nil c)
      have hshorter : rest.length < n := by
        rw [← hn, List.length_append]
        omega
      rw [hsplit, unescapeMarkup_entity, escapeMarkup_cons, ih _ hshorter h.of_append rfl]

/-- **Escaping is exact and reversible.** The cell of a text is the one text without markup from which a
pass over the entities reads the text back. The four replacements put one entity in the place of one
character, and different texts have different cells. -/
theorem cell_exact (s : String) :
    (∀ t : String, cell s = t ↔ IsCellText t.toList ∧ unescapeMarkup t.toList = s.toList) ∧
    (cell s).toList = s.toList.flatMap entity ∧
    ∀ s', cell s = cell s' ↔ s = s' := by
  have hchars : (cell s).toList = escapeMarkup s.toList := by rw [cell, String.toList_ofList]
  refine ⟨?_, ?_, ?_⟩
  · intro t
    constructor
    · rintro rfl
      rw [hchars]
      exact ⟨isCellText_escapeMarkup s.toList, unescapeMarkup_escapeMarkup s.toList⟩
    · rintro ⟨ht, hs⟩
      apply String.toList_injective
      rw [hchars, ← hs, escapeMarkup_unescapeMarkup ht]
  · rw [hchars, escapeMarkup_eq_flatMap]
  · intro s'
    exact cell_injective.eq_iff

/-- A text that looks escaped is escaped once more. -/
example : cell "a < b &lt; \"c\"" = "a &lt; b &amp;lt; &quot;c&quot;" := by decide

end Dataflow
