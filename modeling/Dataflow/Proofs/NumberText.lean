import Dataflow.Pin.Value
import Dataflow.Proofs.Spelling
/-!
# Recorded numbers are read back

A text that spells a decimal is read as this decimal (`Number.ofChars?_chars`), and the text of a double
spells one that is worth the double. Main statement: the text under which a number is recorded is read
back as this number, only the sign of a zero is lost, and two numbers share a text only when no
comparison tells them apart (`Number.text_faithful`).
-/
set_option autoImplicit false

namespace Dataflow

open Float.Model (UnpackedFloat)

/-! ## Reading what is spelled -/

namespace Digits

theorem sign_cons {c : Char} {s : List Char} (hc : c.isDigit = true) :
    sign (c :: s) = (false, c :: s) := by
  rw [sign.eq_def]
  split
  · next heq =>
    obtain rfl := (List.cons.inj heq).1
    exact absurd hc (by decide)
  · next heq =>
    obtain rfl := (List.cons.inj heq).1
    exact absurd hc (by decide)
  · rfl

end Digits

namespace Spelling

open Digits

/-- The characters of a spelling: digits, the point, the letter and the signs of a power. -/
theorem mem_chars {s : Spelling} (hwhole : AreDigits s.whole)
    (hfraction : ∀ f ∈ s.fraction, AreDigits f) {c : Char} (hc : c ∈ s.chars) :
    c.isDigit = true ∨ c ∈ ['.', 'e', '-', '+'] := by
  rw [chars, List.mem_append, List.mem_append] at hc
  rcases hc with hc | hc | hc
  · exact .inl (hwhole.isDigit c hc)
  · cases hf : s.fraction with
    | none =>
      rw [hf] at hc
      exact absurd hc List.not_mem_nil
    | some f =>
      rw [hf, Option.elim_some] at hc
      rcases List.mem_cons.mp hc with rfl | hc
      · exact .inr (by decide)
      · exact .inl ((hfraction f hf).isDigit c hc)
  · cases hp : s.power with
    | none =>
      rw [hp] at hc
      exact absurd hc List.not_mem_nil
    | some p =>
      rw [hp, Option.elim_some, powerChars] at hc
      rcases List.mem_cons.mp hc with rfl | hc
      · exact .inr (by decide)
      rcases List.mem_cons.mp hc with rfl | hc
      · exact .inr (by split <;> decide)
      · exact .inl ((areDigits_ofNat _).isDigit c hc)

end Spelling

namespace Number

open Digits

/-- Digits with a point and a power are read as what they spell. -/
theorem unsigned?_chars {s : Spelling} (hwhole : AreDigits s.whole)
    (hfraction : ∀ f ∈ s.fraction, AreDigits f) : unsigned? s.chars = some s.decimal := by
  have hpower : power? (s.power.elim [] Spelling.powerChars) = some (s.power.getD 0, []) := by
    cases s.power with
    | none => rfl
    | some p =>
      have hread := @power?_powerChars [] p (by simp [EndsNumber])
      rwa [List.append_nil] at hread
  have hstart : ∀ c ∈ (s.power.elim [] Spelling.powerChars).head?, c.isDigit = false ∧ c ≠ '.' := by
    intro c hc
    cases hp : s.power with
    | none => exact absurd hc (by simp [hp])
    | some p =>
      obtain rfl : 'e' = c := by simpa [hp, Spelling.powerChars] using hc
      decide
  rw [Spelling.chars, Spelling.decimal]
  generalize s.power.elim [] Spelling.powerChars = after at hpower hstart
  cases hf : s.fraction with
  | none =>
    have hspan : span (s.whole ++ after) = (s.whole, after) :=
      span_append_of hwhole.isDigit fun c hc => (hstart c hc).1
    rw [Option.elim_none, List.nil_append, unsigned?, hspan]
    dsimp only
    split
    · exact absurd rfl (hstart '.' rfl).2
    · simp [hpower, hwhole.ne_nil]
  | some f =>
    have hspan : span (s.whole ++ ('.' :: f ++ after)) = (s.whole, '.' :: (f ++ after)) :=
      span_append_of hwhole.isDigit fun c hc => by
        obtain rfl : '.' = c := by simpa using hc
        rfl
    have hspan' : span (f ++ after) = (f, after) :=
      span_append_of (hfraction f hf).isDigit fun c hc => (hstart c hc).1
    rw [Option.elim_some, unsigned?, hspan]
    simp [hspan', hpower, hwhole.ne_nil]

/-- **A spelling is read as what it spells**, with or without a minus before it. -/
theorem ofChars?_chars {s : Spelling} (hwhole : AreDigits s.whole)
    (hfraction : ∀ f ∈ s.fraction, AreDigits f) (negative : Bool) :
    ofChars? ((if negative then ['-'] else []) ++ s.chars)
      = some (s.decimal.toSignedFloat negative) := by
  have hread := unsigned?_chars hwhole hfraction
  cases negative with
  | true =>
    rw [if_pos rfl, List.singleton_append, ofChars?, sign]
    simp only [hread]
  | false =>
    obtain ⟨c, rest, hrest⟩ := List.exists_cons_of_ne_nil hwhole.ne_nil
    have hc : c.isDigit = true := hwhole.isDigit c (hrest ▸ List.mem_cons_self)
    have hsign : sign s.chars = (false, s.chars) := by
      rw [Spelling.chars, hrest, List.cons_append]
      exact sign_cons hc
    rw [if_neg (by decide), List.nil_append, ofChars?, hsign]
    simp only [hread]

/-! ## Blanks -/

theorem trimBlanks_of_noBlank {s : List Char} (h : ∀ c ∈ s, Text.isBlank c = false) :
    Text.trimBlanks s = s := by
  have hdrop : ∀ t : List Char, (∀ c ∈ t, Text.isBlank c = false) → t.dropWhile Text.isBlank = t := by
    intro t ht
    cases t with
    | nil => rfl
    | cons c t => rw [List.dropWhile_cons_of_neg (by simp [ht c List.mem_cons_self])]
  have hreverse : ∀ c ∈ s.reverse, Text.isBlank c = false := fun c hc => h c (List.mem_reverse.mp hc)
  rw [Text.trimBlanks, hdrop s h, hdrop _ hreverse, List.reverse_reverse]

theorem not_isBlank_of_isDigit {c : Char} (hc : c.isDigit = true) : Text.isBlank c = false := by
  simp only [Char.isDigit, Bool.and_eq_true, decide_eq_true_eq] at hc
  have hlow : 48 ≤ c.toNat := hc.1
  have hhigh : c.toNat ≤ 57 := hc.2
  simp only [Text.isBlank, Bool.or_eq_false_iff, Bool.and_eq_false_iff, decide_eq_false_iff_not,
    beq_eq_false_iff_ne]
  omega

theorem not_isBlank_of_mem_chars {s : Spelling} (hs : s.Valid) {c : Char} (hc : c ∈ s.chars) :
    Text.isBlank c = false := by
  rcases Spelling.mem_chars hs.whole hs.fraction hc with hdigit | hmark
  · exact not_isBlank_of_isDigit hdigit
  · simp only [List.mem_cons, List.not_mem_nil, or_false] at hmark
    rcases hmark with rfl | rfl | rfl | rfl <;> decide

/-! ## Recorded text -/

variable {x : Float}

/-- The text of a finite double other than zero is read as this double. -/
theorem ofText_text_of_finite {s : UnpackedFloat.Sign} {m : Nat} {e : Int} {hm : 0 < m}
    (hx : x.toModel.unpack = .finite s m e hm) : ofText (text x) = x := by
  have hpos := Decimal.significand_shortest_pos recorded.tie (Binary64.unpack_abs hx)
  have hvalid := (recorded.spelling_spec hpos).1
  have htext : (text x).toList = (if s == .negative then ['-'] else [])
      ++ (recorded.spelling (Decimal.shortest recorded.tie x.abs m e)).chars := by
    rw [text, hx, Layout.chars_spelling]
    exact String.toList_ofList
  have hblank : ∀ c ∈ (text x).toList, Text.isBlank c = false := by
    intro c hc
    rw [htext, List.mem_append] at hc
    rcases hc with hminus | hc
    · split at hminus
      · obtain rfl := List.mem_singleton.mp hminus
        decide
      · exact absurd hminus List.not_mem_nil
    · exact not_isBlank_of_mem_chars hvalid hc
  rw [ofText, trimBlanks_of_noBlank hblank, htext, ofChars?_chars hvalid.whole hvalid.fraction,
    recorded.toSignedFloat_spelling_shortest hx]
  rfl

/-- **The text of a number is read as this number**, only that no zero keeps its sign. -/
theorem ofText_text (x : Float) : ofText (text x) = if x == 0.0 then 0.0 else x := by
  cases hx : x.toModel.unpack with
  | notANumber =>
    have hnan : x = nan := Binary64.eq_of_unpack_eq hx
    rw [hnan]
    rfl
  | infinity s =>
    have hinf : x = .ofModel (.pack (.infinity s)) :=
      Binary64.eq_of_unpack_eq (hx.trans (Binary64.unpack_pack_infinity s).symm)
    rw [hinf]
    cases s <;> rfl
  | zero s =>
    have hzero : x = .ofModel (.pack (.zero s)) :=
      Binary64.eq_of_unpack_eq (hx.trans (Binary64.unpack_pack_zero s).symm)
    rw [hzero]
    cases s <;> rfl
  | finite s m e hm =>
    have hzero : ¬ (x == 0.0) = true := by
      intro hbeq
      obtain ⟨-, -, rfl | ⟨rfl, -⟩ | ⟨rfl, -⟩⟩ := Float.beq_iff_ne_nan_and_eq.mp hbeq <;> cases hx
    rw [ofText_text_of_finite hx, if_neg hzero]

/-- A number is equal to what its text is read as. -/
theorem ofText_text_beq (h : x ≠ Float.nan) : (ofText (text x) == x) = true := by
  rw [ofText_text]
  split
  · next hzero => exact BEq.symm hzero
  · exact Float.beq_self_iff.mpr h

/-- Numbers that are equal have one text. -/
theorem text_eq_of_beq {y : Float} (h : (x == y) = true) : text x = text y := by
  obtain ⟨-, -, rfl | ⟨rfl, rfl⟩ | ⟨rfl, rfl⟩⟩ := Float.beq_iff_ne_nan_and_eq.mp h
  · rfl
  · rfl
  · rfl

/-- Only what is not a number has the text of what is not a number. -/
theorem eq_nan_of_text_eq {y : Float} (h : text x = text y) (hx : x = Float.nan) : y = Float.nan := by
  by_contra hy
  have hread := ofText_text_beq hy
  rw [← h, hx] at hread
  exact absurd hread (by simp [show ofText (text Float.nan) = Float.nan from rfl])

/-- **Recorded text is faithful.** The text of any double, read as a recorded text, gives the double
back, except that both zeros give zero; so what is read is equal to the number, or not a number when
it was none. A pin that carries text reads the same from it. Two doubles have the same text exactly
when they are equal, or both are not a number. -/
theorem text_faithful (x : Float) :
    ofRecorded (text x) = (if x == 0.0 then 0.0 else x) ∧
    (ofRecorded (text x) == x) = !x.isNaN ∧
    (ofRecorded (text x)).isNaN = x.isNaN ∧
    ((PinValue.number x).coerce? .string).map PinValue.toNumber = some (ofRecorded (text x)) ∧
    ∀ y, text x = text y ↔ (x == y) = true ∨ (x.isNaN = true ∧ y.isNaN = true) := by
  rw [ofRecorded_eq_ofText]
  simp only [Float.isNaN_eq_decide_eq_nan, decide_eq_true_eq]
  refine ⟨ofText_text x, ?_, ?_, rfl, fun y => ⟨fun htext => ?_, ?_⟩⟩
  · by_cases hx : x = Float.nan
    · simp [hx]
    · simp [hx, ofText_text_beq hx]
  · by_cases hx : x = Float.nan
    · rw [hx]
      rfl
    · have hread := (Float.beq_iff_ne_nan_and_eq.mp (ofText_text_beq hx)).1
      simp [hx, hread]
  · by_cases hx : x = Float.nan
    · exact .inr ⟨hx, eq_nan_of_text_eq htext hx⟩
    · have hy : y ≠ Float.nan := fun hy => hx (eq_nan_of_text_eq htext.symm hy)
      have hread := ofText_text_beq hy
      rw [← htext] at hread
      exact .inl (BEq.trans (BEq.symm (ofText_text_beq hx)) hread)
  · rintro (heq | ⟨hx, hy⟩)
    · exact text_eq_of_beq heq
    · rw [hx, hy]

end Number

end Dataflow
