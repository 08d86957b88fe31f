import Dataflow.Diagram
import Dataflow.Proofs.Numerals
import Dataflow.Proofs.NumberText
/-!
# The numbers in cells

A cell shows a whole number of 64 bits with a sign by all its digits and every other number as it is
recorded; the evaluation uses the double nearest to the number. Main statement: the text of the cell of
a number or a text, read as a recorded text, is the number that the evaluation uses
(`Program.shown_number_used`). The digits of a whole number are read as the double nearest to it
(`ofText_integer`), so it does not matter whether the digits or the number itself is rounded.
-/
set_option autoImplicit false

namespace Dataflow

open Digits

/-! ## Whole numbers -/

theorem Binary64.neg_nearest (q : Rat) : (nearest .positive q).neg = nearest .negative q := by
  rw [nearest, nearest, settle, settle]
  split <;> rfl

namespace Json.Number

/-- A whole number counts as the double nearest to it. -/
theorem unpack_toFloat_integer {k : Int} (hk : (integer k).Proper) :
    (integer k).toFloat.toModel.unpack
      = Binary64.nearest (if k < 0 then .negative else .positive) k.natAbs := by
  have hsize : (Decimal.toFloat ⟨k.natAbs, 0⟩).toModel.unpack
      = Binary64.nearest .positive k.natAbs := by
    have hvalue : Decimal.value ⟨k.natAbs, 0⟩ = k.natAbs := by
      rw [Decimal.value, zpow_zero, mul_one]
    rcases Nat.eq_zero_or_pos k.natAbs with hzero | hpos
    · rw [Decimal.toFloat_of_significand_zero hzero, hzero, Nat.cast_zero, Binary64.nearest_zero]
    · have hbound : k.natAbs ≤ 2 ^ 64 := by
        simp only [Proper, signedBound, unsignedBound, UInt64.size] at hk
        omega
      have hlt : (k.natAbs : Rat) < 2 ^ (1000 : Int) :=
        calc (k.natAbs : Rat) ≤ 2 ^ 64 := by exact_mod_cast hbound
          _ < 2 ^ (1000 : Int) := by exact_mod_cast Nat.pow_lt_pow_right (by decide) (by decide)
      obtain ⟨m, e, h, hnearest, hcanonical⟩ :=
        Binary64.canonical_of_nearest (by exact_mod_cast hpos) hlt .positive
      rw [Decimal.toFloat_eq, hvalue, hnearest]
      exact Binary64.unpack_pack hcanonical
  rw [toFloat]
  split
  · rw [Binary64.unpack_neg, hsize, Binary64.neg_nearest]
  · exact hsize

end Json.Number

namespace Number

/-- **The digits of a whole number are read as the double nearest to it.** -/
theorem ofText_integer (k : Int) :
    ofText (Json.Number.integer k).text = (Json.Number.integer k).toFloat := by
  have hchars : (Json.Number.integer k).text.toList
      = (if decide (k < 0) then ['-'] else [])
        ++ (Spelling.mk (ofNat k.natAbs) none none).chars := by
    rw [Json.Number.text, String.toList_ofList, Json.Number.chars, Json.intChars]
    simp [Spelling.chars]
  have hblank : ∀ c ∈ (Json.Number.integer k).text.toList, Text.isBlank c = false := by
    intro c hc
    rw [Json.Number.text, String.toList_ofList, Json.Number.chars, Json.intChars, List.mem_append] at hc
    rcases hc with hminus | hdigit
    · split at hminus
      · obtain rfl := List.mem_singleton.mp hminus
        decide
      · exact absurd hminus List.not_mem_nil
    · exact not_isBlank_of_isDigit ((areDigits_ofNat _).isDigit c hdigit)
  have hdecimal : (Spelling.mk (ofNat k.natAbs) none none).decimal = ⟨k.natAbs, 0⟩ := by
    simp [Spelling.decimal, Decimal.ofParts, value_ofNat]
  rw [ofText, trimBlanks_of_noBlank hblank, hchars,
    ofChars?_chars (areDigits_ofNat _) (by simp), hdecimal, Json.Number.toFloat, Decimal.toSignedFloat]
  simp only [decide_eq_true_eq, Option.getD_some]

end Number

/-! ## Cells -/

/-- The values whose cell spells a number when the evaluation uses one: numbers that a document can
hold, and texts. -/
def Json.Value.IsNumeric : Json.Value → Prop
  | .number x => x.Proper
  | .string _ => True
  | _ => False

/-- The cell of a number is read as the number. -/
theorem ofText_cellText_number {x : Json.Number} (hx : x.Proper) :
    (Number.ofText (cellText (.number x)) == x.toFloat) = true := by
  have hnum : x.toFloat ≠ Float.nan := by
    intro hnan
    have hfinite := Json.Number.isFinite_toFloat hx
    rw [hnan] at hfinite
    exact absurd hfinite (by decide)
  cases x with
  | float y => exact Number.ofText_text_beq hnum
  | integer k =>
    rw [cellText]
    split
    · rw [Number.ofText_integer]
      exact Float.beq_self_iff.mpr hnum
    · exact Number.ofText_text_beq hnum

namespace Program

/-- The keys of the rows that a table adds to the configuration of its node. -/
def addedKeys : List String :=
  ["nodeValue", "formula", "formulaWithValues"]

theorem mem_setRow_of_mem {rows : List (String × String)} {row : String × String} {key text : String}
    (h : row ∈ rows) (hkey : row.1 ≠ key) : row ∈ setRow rows key text := by
  induction rows with
  | nil => exact absurd h List.not_mem_nil
  | cons first rest ih =>
    rw [setRow]
    split
    · next hfirst =>
      rcases List.mem_cons.mp h with rfl | hrest
      · exact absurd hfirst hkey
      · exact List.mem_cons_of_mem _ hrest
    · rcases List.mem_cons.mp h with rfl | hrest
      · exact List.mem_cons_self
      · exact List.mem_cons_of_mem _ (ih hrest)

/-- A plain property has its row in the table, unless the table adds one under the same key. -/
theorem mem_propertyRows (p : Program) {n : Node} {key : String} {v : Json.Value}
    (hv : n.property? key = some v) (hplain : v.isContainer = false) (hkey : key ∉ addedKeys) :
    (key, cellText v) ∈ p.propertyRows n := by
  simp only [addedKeys, List.mem_cons, List.not_mem_nil, or_false, not_or] at hkey
  obtain ⟨hvalue, hformula, hwith⟩ := hkey
  unfold propertyRows
  extract_lets configured shown
  have hconfigured : (key, cellText v) ∈ configured := by
    obtain ⟨⟨k, w⟩, hfind, rfl⟩ := Option.map_eq_some_iff.mp hv
    have hk : k = key := by simpa using List.find?_some hfind
    refine List.mem_map.mpr ⟨(k, w), List.mem_filter.mpr ⟨List.mem_of_find?_eq_some hfind, ?_⟩, ?_⟩
    · simp [hplain]
    · rw [hk]
  have hshown : (key, cellText v) ∈ shown := by
    simp only [shown]
    split
    · exact mem_setRow_of_mem hconfigured hvalue
    · exact hconfigured
  split
  · exact mem_setRow_of_mem (mem_setRow_of_mem hshown hformula) hwith
  · exact hshown

/-- **The number shown is the number used.** For a configuration value that is a number or a text, the
text of its cell, read as a recorded text, is equal to the number that the evaluation uses, and it is
not a number when the evaluation uses none. The number used for a whole number is the double nearest to
it, and the cell stands in the table of the node. -/
theorem shown_number_used (p : Program) {n : Node} {key : String} {v : Json.Value}
    (hv : n.property? key = some v) (hnumeric : v.IsNumeric) :
    (match n.numberProperty? key with
      | some used => (Number.ofRecorded (cellText v) == used) = true
      | none => (Number.ofRecorded (cellText v)).isNaN = true) ∧
    (∀ k, v = .number (.integer k) → ∃ used, n.numberProperty? key = some used ∧
      used.toModel.unpack = Binary64.nearest (if k < 0 then .negative else .positive) k.natAbs) ∧
    (key ∉ addedKeys → (key, cellText v) ∈ p.propertyRows n) := by
  refine ⟨?_, ?_, ?_⟩
  · rw [NodeDefinition.numberProperty?, hv]
    cases v with
    | number x =>
      rw [Number.ofRecorded_eq_ofText]
      exact ofText_cellText_number hnumeric
    | string s =>
      dsimp only [cellText]
      split
      · next used hused =>
        split at hused
        · exact absurd hused (by simp)
        · next hnum =>
          obtain rfl := Option.some.inj hused
          rw [Float.isNaN_eq_decide_eq_nan, decide_eq_true_eq] at hnum
          exact Float.beq_self_iff.mpr hnum
      · next hused =>
        split at hused
        · next hnan => exact hnan
        · exact absurd hused (by simp)
    | _ => exact absurd hnumeric (by simp [Json.Value.IsNumeric])
  · rintro k rfl
    refine ⟨(Json.Number.integer k).toFloat, ?_, Json.Number.unpack_toFloat_integer hnumeric⟩
    rw [NodeDefinition.numberProperty?, hv]
  · refine mem_propertyRows p hv ?_
    cases v with
    | number x => rfl
    | string s => rfl
    | _ => exact absurd hnumeric (by simp [Json.Value.IsNumeric])

/-- A node whose value is the first whole number that is no double, and which is nothing else. -/
def dial : Node where
  id := "d"
  name := "Number"
  data := { typeName := "Number", properties := [("value", .number (.integer 9007199254740993))] }
  kind := .number

/-- The cell has all the digits of the number, and what it is read as is the double that is used. -/
theorem dial_shown :
    dial.property? "value" = some (.number (.integer 9007199254740993)) ∧
    dial.numberProperty? "value" = some 9007199254740992.0 ∧
    (Number.ofRecorded "9007199254740993" == 9007199254740992.0) = true ∧
    ("value", "9007199254740993") ∈ (blank none []).propertyRows dial := by
  have hvalue : dial.property? "value" = some (.number (.integer 9007199254740993)) := rfl
  have hused : dial.numberProperty? "value" = some 9007199254740992.0 := by rfl
  obtain ⟨hshown, -, hrow⟩ := shown_number_used (blank none []) hvalue ⟨by decide, by decide⟩
  rw [hused] at hshown
  exact ⟨hvalue, hused, hshown, hrow (by decide)⟩

end Program

end Dataflow
