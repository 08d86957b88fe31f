import Dataflow.Json.Printer
import Dataflow.Json.Reader
import Dataflow.Proofs.Spelling
/-!
# Numbers in JSON texts

A number literal goes on as long as it can. Main statements: a valid spelling is scanned as what it
spells (`scan_spelling`), and the text of a number that a document can hold is read as this number
(`scan_chars`, `readNumeral_numeral?`).
-/
set_option autoImplicit false

namespace Dataflow.Json

open Digits
open Float.Model (UnpackedFloat)

/-! ## Scanning -/

variable {rest : List Char}

theorem scanWhole?_append {whole : List Char} (hdigits : AreDigits whole)
    (hlead : whole = ['0'] ∨ whole.head? ≠ some '0')
    (hrest : ∀ c ∈ rest.head?, c.isDigit = false) :
    scanWhole? (whole ++ rest) = some (whole, rest) := by
  rw [scanWhole?, span_append_of hdigits.isDigit hrest]
  split
  · next hnil => exact absurd (congrArg Prod.fst hnil) hdigits.ne_nil
  · next hzero =>
    obtain ⟨hwhole, -⟩ := Prod.mk.inj hzero
    rcases hlead with hlead | hlead
    · exact absurd (hlead ▸ hwhole) (by simp)
    · exact absurd (by rw [hwhole]; rfl) hlead
  · next hcons =>
    obtain ⟨rfl, rfl⟩ := Prod.mk.inj hcons
    rfl

theorem scanFraction?_append {fraction : Option (List Char)} (hdigits : ∀ f ∈ fraction, AreDigits f)
    (hrest : ∀ c ∈ rest.head?, c.isDigit = false ∧ c ≠ '.') :
    scanFraction? (fraction.elim [] ('.' :: ·) ++ rest) = some (fraction, rest) := by
  cases fraction with
  | none =>
    rw [Option.elim_none, List.nil_append, scanFraction?]
    rintro rest' rfl
    exact (hrest '.' rfl).2 rfl
  | some f =>
    have hf := hdigits f rfl
    simp only [Option.elim_some, List.cons_append, scanFraction?]
    rw [span_append_of hf.isDigit fun c hc => (hrest c hc).1]
    split
    · next hnil => exact absurd (congrArg Prod.fst hnil) hf.ne_nil
    · next hcons =>
      obtain ⟨rfl, rfl⟩ := Prod.mk.inj hcons
      rfl

theorem scan_of {negative : Bool} {s afterWhole afterFraction whole : List Char}
    {fraction : Option (List Char)} {power : Int} (hminus : s.head? ≠ some '-')
    (hwhole : scanWhole? s = some (whole, afterWhole))
    (hfraction : scanFraction? afterWhole = some (fraction, afterFraction))
    (hpower : power? afterFraction = some (power, rest)) :
    Numeral.scan ((if negative then ['-'] else []) ++ s)
      = some (⟨negative, .ofParts whole (fraction.getD []) power,
          fraction.isNone && !hasPower afterFraction⟩, rest) := by
  cases negative with
  | true => simp only [if_true, List.singleton_append, Numeral.scan, hwhole, hfraction, hpower]
  | false =>
    rw [if_neg (by decide), List.nil_append, Numeral.scan]
    · simp only [hwhole, hfraction, hpower]
    · rintro s' rfl
      exact hminus rfl

/-- **A valid spelling is scanned as what it spells**, with or without a minus before it. -/
theorem scan_spelling {s : Spelling} (hs : s.Valid) (negative : Bool) (h : EndsNumber rest) :
    Numeral.scan ((if negative then ['-'] else []) ++ (s.chars ++ rest))
      = some (⟨negative, s.decimal, s.fraction.isNone && s.power.isNone⟩, rest) := by
  generalize hafter : s.power.elim [] Spelling.powerChars ++ rest = after
  have hpower : power? after = some (s.power.getD 0, rest) ∧ hasPower after = s.power.isSome ∧
      ∀ c ∈ after.head?, c.isDigit = false ∧ c ≠ '.' := by
    subst hafter
    cases s.power with
    | none =>
      refine ⟨power?_none h, ?_, fun c hc => ⟨(h c hc).1, (h c hc).2.1⟩⟩
      cases rest with
      | nil => rfl
      | cons c rest =>
        have hc := h c rfl
        simp [hasPower, hc]
    | some p =>
      refine ⟨power?_powerChars p h, rfl, fun c hc => ?_⟩
      obtain rfl : 'e' = c := by simpa [Spelling.powerChars] using hc
      decide
  obtain ⟨hpower, hhas, hafter'⟩ := hpower
  have hfraction : scanFraction? (s.fraction.elim [] ('.' :: ·) ++ after) = some (s.fraction, after) :=
    scanFraction?_append hs.fraction hafter'
  have hwhole : scanWhole? (s.whole ++ (s.fraction.elim [] ('.' :: ·) ++ after))
      = some (s.whole, s.fraction.elim [] ('.' :: ·) ++ after) := by
    refine scanWhole?_append hs.whole hs.lead fun c hc => ?_
    cases hf : s.fraction with
    | none =>
      rw [hf] at hc
      exact (hafter' c hc).1
    | some f =>
      rw [hf] at hc
      obtain rfl : '.' = c := by simpa using hc
      decide
  have hchars : s.chars ++ rest = s.whole ++ (s.fraction.elim [] ('.' :: ·) ++ after) := by
    rw [Spelling.chars, List.append_assoc, List.append_assoc, hafter]
  have hminus : (s.chars ++ rest).head? ≠ some '-' := by
    obtain ⟨c, cs, hcs⟩ := List.exists_cons_of_ne_nil hs.whole.ne_nil
    have hc := hs.whole.isDigit c (hcs ▸ List.mem_cons_self)
    rw [hchars, hcs]
    rintro ⟨rfl⟩
    exact absurd hc (by decide)
  rw [hchars] at hminus ⊢
  rw [scan_of hminus hwhole hfraction hpower, hhas, Option.not_isSome]
  rfl

/-! ## Numbers -/

/-- The literal that the text of a double is; a double that is not finite has none. -/
def floatNumeral? (x : Float) : Option Numeral :=
  match x.toModel.unpack with
  | .notANumber => none
  | .infinity _ => none
  | .zero s => some ⟨s == .negative, ⟨0, -1⟩, false⟩
  | .finite s m e _ =>
    some ⟨s == .negative, (floatLayout.spelling (Decimal.shortest floatLayout.tie x.abs m e)).decimal, false⟩

/-- The literal that the text of a number is. -/
def Number.numeral? : Number → Option Numeral
  | .integer n => some ⟨n < 0, ⟨n.natAbs, 0⟩, true⟩
  | .float x => floatNumeral? x

/-- A number that a document can hold: a whole number that fits 64 bits, signed or unsigned, or a
finite double. -/
def Number.Proper : Number → Prop
  | .integer n => -(Number.signedBound : Int) ≤ n ∧ n < Number.unsignedBound
  | .float x => x.isFinite = true

theorem scan_floatChars {x : Float} {n : Numeral} (hn : floatNumeral? x = some n)
    (h : EndsNumber rest) : Numeral.scan (floatChars x ++ rest) = some (n, rest) := by
  rw [floatNumeral?] at hn
  rw [floatChars]
  cases hx : x.toModel.unpack with
  | notANumber => exact absurd hn (by simp [hx])
  | infinity s => exact absurd hn (by simp [hx])
  | zero s =>
    rw [hx] at hn
    obtain rfl := Option.some.inj hn
    have hvalid : Spelling.Valid ⟨['0'], some ['0'], none⟩ :=
      ⟨⟨by simp, by simp⟩, .inl rfl, by rintro f ⟨rfl⟩; exact ⟨by simp, by simp⟩⟩
    have hscan := scan_spelling hvalid (s == .negative) h
    cases s with
    | positive => exact hscan
    | negative => exact hscan
  | finite s m e hm =>
    rw [hx] at hn
    obtain rfl := Option.some.inj hn
    have hpos := Decimal.significand_shortest_pos floatLayout.tie (Binary64.unpack_abs hx)
    have hscan := scan_spelling (floatLayout.spelling_spec hpos).1 (s == .negative) h
    rw [Layout.not_whole_spelling rfl, Layout.chars_spelling] at hscan
    rw [← List.append_assoc] at hscan
    exact hscan

theorem scan_intChars (n : Int) (h : EndsNumber rest) :
    Numeral.scan (intChars n ++ rest) = some (⟨n < 0, ⟨n.natAbs, 0⟩, true⟩, rest) := by
  have hlead : ofNat n.natAbs = ['0'] ∨ (ofNat n.natAbs).head? ≠ some '0' := by
    rcases Nat.eq_zero_or_pos n.natAbs with hzero | hpos
    · rw [hzero]
      exact .inl rfl
    · exact .inr (head?_ofNat hpos)
  have hscan := scan_spelling (s := ⟨ofNat n.natAbs, none, none⟩)
    ⟨areDigits_ofNat _, hlead, by simp⟩ (n < 0) h
  rw [intChars, List.append_assoc]
  simpa [Spelling.chars, Spelling.decimal, Decimal.ofParts, value_ofNat] using hscan

theorem scan_chars {n : Number} {literal : Numeral} (hn : n.numeral? = some literal)
    (h : EndsNumber rest) :
    Numeral.scan (n.chars ++ rest) = some (literal, rest) := by
  cases n with
  | integer n =>
    obtain rfl := Option.some.inj hn
    exact scan_intChars n h
  | float x => exact scan_floatChars hn h

/-- The literal of a finite double is read as this double. -/
theorem readNumeral_floatNumeral? {x : Float} (hx : x.isFinite = true) :
    ∃ literal, floatNumeral? x = some literal ∧ literal.whole = false ∧
      literal.decimal.toSignedFloat literal.negative = x := by
  have hfinite : x.toModel.unpack.isFinite = true := hx
  rw [floatNumeral?]
  cases hunpack : x.toModel.unpack with
  | notANumber => exact absurd hfinite (by simp [hunpack, UnpackedFloat.isFinite])
  | infinity s => exact absurd hfinite (by simp [hunpack, UnpackedFloat.isFinite])
  | zero s =>
    refine ⟨_, rfl, rfl, Binary64.eq_of_unpack_eq ?_⟩
    have hzero := Decimal.toFloat_of_significand_zero (d := ⟨0, -1⟩) rfl
    rw [hunpack]
    cases s with
    | positive => exact hzero
    | negative =>
      change (Float.Model.pack (Decimal.toFloat ⟨0, -1⟩).toModel.unpack.neg).unpack = _
      rw [hzero]
      exact Binary64.unpack_pack_zero .negative
  | finite s m e hm => exact ⟨_, rfl, rfl, floatLayout.toSignedFloat_spelling_shortest hunpack⟩

/-- **The text of a number is read as the number.** -/
theorem readNumeral_numeral? {n : Number} (hn : n.Proper) :
    ∃ literal, n.numeral? = some literal ∧ readNumeral literal = .ok n := by
  cases n with
  | integer n =>
    obtain ⟨hlow, hhigh⟩ := hn
    refine ⟨_, rfl, ?_⟩
    simp only [Number.signedBound, Number.unsignedBound] at hlow hhigh
    rw [readNumeral]
    by_cases hneg : n < 0
    · have hsize : 0 < n.natAbs ∧ n.natAbs ≤ Number.signedBound := by
        simp only [Number.signedBound]
        omega
      have hvalue : -(n.natAbs : Int) = n := by omega
      simp [hneg, hsize, hvalue, -Nat.cast_natAbs]
    · have hsize : n.natAbs < Number.unsignedBound := by
        simp only [Number.unsignedBound]
        omega
      have hvalue : (n.natAbs : Int) = n := by omega
      simp [hneg, hsize, hvalue, -Nat.cast_natAbs]
  | float x =>
    obtain ⟨literal, hliteral, hwhole, hread⟩ := readNumeral_floatNumeral? hn
    refine ⟨literal, hliteral, ?_⟩
    rw [readNumeral]
    simp [hwhole, hread, ((Binary64.isFinite_iff x).mp hn).2]

/-- What a literal is read as is a number that a document can hold. -/
theorem proper_of_readNumeral {literal : Numeral} {n : Number} (h : readNumeral literal = .ok n) :
    n.Proper := by
  rw [readNumeral] at h
  dsimp only at h
  split at h
  · next hwhole =>
    obtain rfl := Except.ok.inj h
    rw [Bool.and_eq_true] at hwhole
    have hsize := of_decide_eq_true hwhole.2
    simp only [Number.Proper, Number.signedBound]
    omega
  split at h
  · next hwhole =>
    obtain rfl := Except.ok.inj h
    rw [Bool.and_eq_true] at hwhole
    have hsize := of_decide_eq_true hwhole.2
    simp only [Number.signedBound] at hsize
    simp only [Number.Proper, Number.signedBound, Number.unsignedBound, UInt64.size]
    omega
  split at h
  · exact absurd h (by simp)
  · next hinf =>
    obtain rfl := Except.ok.inj h
    exact (Binary64.isFinite_iff _).mpr
      ⟨Decimal.unpack_toSignedFloat_ne_nan _ _, by simpa using hinf⟩

/-- The value of a number of a document is finite. -/
theorem Number.isFinite_toFloat {n : Number} (h : n.Proper) : n.toFloat.isFinite = true := by
  cases n with
  | float x => exact h
  | integer n =>
    have hsize : (Decimal.toFloat ⟨n.natAbs, 0⟩).isFinite = true := by
      rcases Nat.eq_zero_or_pos n.natAbs with hzero | hpos
      · rw [Binary64.isFinite_eq, Decimal.toFloat_of_significand_zero hzero]
        rfl
      · have hvalue : Decimal.value ⟨n.natAbs, 0⟩ = n.natAbs := by
          rw [Decimal.value, zpow_zero, mul_one]
        have hbound : n.natAbs ≤ 2 ^ 64 := by
          simp only [Proper, signedBound, unsignedBound, UInt64.size] at h
          omega
        refine Decimal.isFinite_toFloat_of_lt ?_ ?_
        · rw [hvalue]
          exact_mod_cast hpos
        · rw [hvalue]
          calc (n.natAbs : Rat) ≤ 2 ^ 64 := by exact_mod_cast hbound
            _ < 2 ^ (1000 : Int) := by exact_mod_cast Nat.pow_lt_pow_right (by decide) (by decide)
    rw [toFloat]
    split
    · rw [Binary64.isFinite_neg, hsize]
    · exact hsize

end Dataflow.Json
