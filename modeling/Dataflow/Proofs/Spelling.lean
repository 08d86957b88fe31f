import Dataflow.Number.Layout
import Dataflow.Proofs.Decimals
/-!
# Spellings of decimals

The texts that a layout writes for a decimal consist of digits before a point, digits after it and a
power of ten. Main statement: what a layout writes is a valid spelling of the number
(`Layout.spelling_spec`): it has digits where readers ask for them, no zero before the first one, and
the value of the decimal.
-/
set_option autoImplicit false

namespace Dataflow

/-! ## Digits -/

namespace Digits

/-- Decimal digits, at least one. -/
structure AreDigits (s : List Char) : Prop where
  ne_nil : s ≠ []
  isDigit : ∀ c ∈ s, c.isDigit = true

theorem value_eq (s : List Char) : value s = Nat.ofDigitChars 10 s 0 := rfl

theorem value_append (a b : List Char) : value (a ++ b) = value a * 10 ^ b.length + value b := by
  rw [value_eq, Nat.ofDigitChars_append, Nat.ofDigitChars_eq_ofDigitChars_zero, Nat.mul_comm]
  rfl

theorem value_replicate (n : Nat) : value (List.replicate n '0') = 0 := by
  rw [value_eq, Nat.ofDigitChars_replicate_zero, Nat.mul_zero]

theorem value_ofNat (n : Nat) : value (ofNat n) = n :=
  Nat.ofDigitChars_ten_toDigits

theorem text_injective : Function.Injective text := by
  intro m n h
  have hdigits : ofNat m = ofNat n := String.ofList_injective h
  rw [← value_ofNat m, hdigits, value_ofNat]

theorem areDigits_ofNat (n : Nat) : AreDigits (ofNat n) :=
  ⟨Nat.toDigits_ne_nil, fun _ hc => Nat.isDigit_of_mem_toDigits (by decide) (by decide) hc⟩

theorem value_lt {s : List Char} (h : ∀ c ∈ s, c.isDigit = true) : value s < 10 ^ s.length := by
  induction s with
  | nil => exact Nat.one_pos
  | cons c s ih =>
    have htail := ih fun d hd => h d (List.mem_cons_of_mem _ hd)
    have hdigit : value [c] < 10 := by
      have hc := h c List.mem_cons_self
      simp only [Char.isDigit, Bool.and_eq_true, decide_eq_true_eq] at hc
      have hle : c.toNat ≤ 57 := hc.2
      change 10 * 0 + (c.toNat - 48) < 10
      omega
    rw [← List.singleton_append, value_append, List.length_append, List.length_singleton, pow_add]
    calc value [c] * 10 ^ s.length + value s < value [c] * 10 ^ s.length + 10 ^ s.length := by omega
      _ = (value [c] + 1) * 10 ^ s.length := by ring
      _ ≤ 10 ^ 1 * 10 ^ s.length := Nat.mul_le_mul_right _ (by omega)

/-- The digits of a number do not start with a zero, except for zero itself. -/
theorem head?_ofNat {n : Nat} (hn : 0 < n) : (ofNat n).head? ≠ some '0' := by
  intro hhead
  obtain ⟨rest, hrest⟩ := List.head?_eq_some_iff.mp hhead
  have hdigits : ∀ c ∈ rest, c.isDigit = true := fun c hc =>
    (areDigits_ofNat n).isDigit c (hrest ▸ List.mem_cons_of_mem _ hc)
  have hvalue : n = value rest := by
    rw [← value_ofNat n, hrest]
    exact (value_append ['0'] rest).trans (by simp [value])
  have hlength : (ofNat n).length ≤ rest.length := by
    rcases Nat.eq_zero_or_pos rest.length with hzero | hpos
    · rw [List.eq_nil_of_length_eq_zero hzero] at hvalue
      exact absurd hvalue hn.ne'
    · exact (Nat.length_toDigits_le_iff (by decide) hpos).mpr (hvalue ▸ value_lt hdigits)
  rw [hrest, List.length_cons] at hlength
  omega

/-- A run of digits ends where no digit follows. -/
theorem span_append_of {s rest : List Char} (hs : ∀ c ∈ s, c.isDigit = true)
    (hrest : ∀ c ∈ rest.head?, c.isDigit = false) : span (s ++ rest) = (s, rest) := by
  induction s with
  | nil =>
    cases rest with
    | nil => rfl
    | cons c rest => simp [span, hrest c rfl]
  | cons c s ih =>
    have hc := hs c List.mem_cons_self
    have hspan := ih fun d hd => hs d (List.mem_cons_of_mem _ hd)
    simp only [span, Prod.mk.injEq] at hspan
    simp [span, hc, hspan]

end Digits

/-! ## Spellings -/

/-- How a decimal is spelled: its digits before the point, those after it if there is a point, and
the power of ten if one is written. -/
structure Spelling where
  whole : List Char
  fraction : Option (List Char)
  power : Option Int

namespace Spelling

open Digits

/-- The characters of a power of ten. -/
def powerChars (p : Int) : List Char :=
  'e' :: (if p < 0 then '-' else '+') :: ofNat p.natAbs

def chars (s : Spelling) : List Char :=
  s.whole ++ (s.fraction.elim [] ('.' :: ·) ++ s.power.elim [] powerChars)

def decimal (s : Spelling) : Decimal :=
  .ofParts s.whole (s.fraction.getD []) (s.power.getD 0)

/-- There are digits where digits have to be, and no zero before the first of them. -/
structure Valid (s : Spelling) : Prop where
  whole : AreDigits s.whole
  lead : s.whole = ['0'] ∨ s.whole.head? ≠ some '0'
  fraction : ∀ f ∈ s.fraction, AreDigits f

/-- The value of a spelling, digit by digit. -/
theorem value_decimal (s : Spelling) :
    s.decimal.value = (value (s.whole ++ s.fraction.getD []) : Rat)
      * 10 ^ (s.power.getD 0 - (s.fraction.getD []).length) := rfl

end Spelling

/-- True where a number may end: what follows does not go on with it. -/
def EndsNumber (rest : List Char) : Prop :=
  ∀ c ∈ rest.head?, c.isDigit = false ∧ c ≠ '.' ∧ c ≠ 'e' ∧ c ≠ 'E'

namespace Digits

variable {rest : List Char}

theorem power?_none (h : EndsNumber rest) : power? rest = some (0, rest) := by
  have hpower : hasPower rest = false := by
    cases rest with
    | nil => rfl
    | cons c rest =>
      have hc := h c rfl
      simp [hasPower, hc]
  rw [power?, hpower]
  rfl

theorem power?_powerChars (p : Int) (h : EndsNumber rest) :
    power? (Spelling.powerChars p ++ rest) = some (p, rest) := by
  have hdigits := areDigits_ofNat p.natAbs
  have hspan : span (ofNat p.natAbs ++ rest) = (ofNat p.natAbs, rest) :=
    span_append_of hdigits.isDigit fun c hc => (h c hc).1
  have hvalue := value_ofNat p.natAbs
  rw [power?, Spelling.powerChars]
  simp only [List.cons_append, hasPower, beq_self_eq_true, Bool.true_or, if_true, List.tail_cons]
  by_cases hp : p < 0
  · simp only [hp, if_true, sign, hspan]
    split
    · next hnil => exact absurd (congrArg Prod.fst hnil) hdigits.ne_nil
    · next hcons =>
      cases hcons
      rw [hvalue]
      congr 2
      omega
  · simp only [hp, if_false, sign, hspan]
    split
    · next hnil => exact absurd (congrArg Prod.fst hnil) hdigits.ne_nil
    · next hcons =>
      cases hcons
      rw [hvalue, if_neg (by simp)]
      congr 2
      omega

end Digits

/-! ## What a layout writes -/

namespace Layout

open Digits

/-- The spelling in positional form when the first digit has the power of ten `lead`. -/
def positionalSpelling (l : Layout) (digits : List Char) (lead : Int) : Spelling :=
  if lead < 0 then ⟨['0'], some (List.replicate (-lead - 1).toNat '0' ++ digits), none⟩
  else
    let whole := lead.toNat + 1
    if digits.length ≤ whole then
      ⟨digits ++ List.replicate (whole - digits.length) '0',
        if l.wholeFraction then some ['0'] else none, none⟩
    else ⟨digits.take whole, some (digits.drop whole), none⟩

/-- The spelling with a power of ten. -/
def scientificSpelling (digits : List Char) (lead : Int) : Spelling :=
  ⟨digits.take 1, if digits.length ≤ 1 then none else some (digits.drop 1), some lead⟩

/-- The spelling of a positive decimal. -/
def spelling (l : Layout) (d : Decimal) : Spelling :=
  let all := ofNat d.significand
  let lead : Int := d.exponent + (all.length - 1 : Nat)
  if l.least ≤ lead ∧ lead ≤ l.most then l.positionalSpelling (significant all) lead
  else scientificSpelling (significant all) lead

theorem chars_positionalSpelling (l : Layout) (digits : List Char) (lead : Int) :
    (l.positionalSpelling digits lead).chars = l.positional digits lead := by
  rw [positionalSpelling, positional]
  split
  · simp [Spelling.chars]
  · dsimp only
    split
    · split <;> simp [Spelling.chars]
    · simp [Spelling.chars]

theorem chars_scientificSpelling (digits : List Char) (lead : Int) :
    (scientificSpelling digits lead).chars = scientific digits lead := by
  rw [scientificSpelling, scientific]
  split <;> simp [Spelling.chars, Spelling.powerChars]

theorem chars_spelling (l : Layout) (d : Decimal) : (l.spelling d).chars = l.digits d := by
  rw [spelling, digits]
  split
  · exact chars_positionalSpelling l _ _
  · exact chars_scientificSpelling _ _

/-- The zeros at the end are all that `significant` drops. -/
theorem exists_significant (digits : List Char) :
    ∃ k, digits = significant digits ++ List.replicate k '0' := by
  induction digits using List.reverseRecOn with
  | nil => exact ⟨0, rfl⟩
  | append_singleton digits c ih =>
    have hsignificant : significant (digits ++ [c])
        = if c == '0' then significant digits else digits ++ [c] :=
      List.rdropWhile_concat (· == '0') digits c
    rw [hsignificant]
    split
    · next hc =>
      obtain rfl := beq_iff_eq.mp hc
      obtain ⟨k, hk⟩ := ih
      refine ⟨k + 1, ?_⟩
      rw [List.replicate_succ', ← List.append_assoc, ← hk]
    · exact ⟨0, (List.append_nil _).symm⟩

/-- The significant digits of a decimal: what they are and what they are worth when the first of
them has the power of ten that it has in the decimal. -/
theorem significant_spec {d : Decimal} (hd : 0 < d.significand) :
    AreDigits (significant (ofNat d.significand)) ∧
      (significant (ofNat d.significand)).head? ≠ some '0' ∧
      d.value = (value (significant (ofNat d.significand)) : Rat)
        * 10 ^ (d.exponent + ((ofNat d.significand).length - 1 : Nat) + 1
          - (significant (ofNat d.significand)).length) := by
  have hall := areDigits_ofNat d.significand
  have hvalue := value_ofNat d.significand
  have hhead := head?_ofNat hd
  obtain ⟨k, hk⟩ := exists_significant (ofNat d.significand)
  generalize significant (ofNat d.significand) = digits at hk ⊢
  generalize ofNat d.significand = all at hk hall hvalue hhead ⊢
  subst hk
  rw [value_append, value_replicate, List.length_replicate, Nat.add_zero] at hvalue
  have hne : digits ≠ [] := by
    rintro rfl
    rw [show value [] = 0 from rfl, Nat.zero_mul] at hvalue
    exact hd.ne hvalue
  refine ⟨⟨hne, fun c hc => hall.isDigit c (List.mem_append_left _ hc)⟩, ?_, ?_⟩
  · rwa [List.head?_append_of_ne_nil _ hne] at hhead
  · have hlength : 0 < digits.length := List.length_pos_iff.mpr hne
    have hexponent : d.exponent + ((digits ++ List.replicate k '0').length - 1 : Nat) + 1 - digits.length
        = d.exponent + k := by
      simp only [List.length_append, List.length_replicate]
      omega
    rw [hexponent, Decimal.value, ← hvalue, zpow_add₀ (by norm_num), zpow_natCast]
    push_cast
    ring

variable {sig : List Char} {lead : Int}

theorem areDigits_replicate (k : Nat) : ∀ c ∈ List.replicate k '0', c.isDigit = true := by
  intro c hc
  rw [List.eq_of_mem_replicate hc]
  rfl

theorem positionalSpelling_valid (l : Layout) (hdigits : AreDigits sig)
    (hhead : sig.head? ≠ some '0') : (l.positionalSpelling sig lead).Valid := by
  have hne := hdigits.ne_nil
  rw [positionalSpelling]
  split
  · refine ⟨⟨by simp, by simp⟩, .inl rfl, ?_⟩
    rintro f ⟨rfl⟩
    refine ⟨by simp [hne], fun c hc => ?_⟩
    rcases List.mem_append.mp hc with hc | hc
    · exact areDigits_replicate _ c hc
    · exact hdigits.isDigit c hc
  dsimp only
  split
  · refine ⟨⟨by simp [hne], fun c hc => ?_⟩, .inr ?_, ?_⟩
    · rcases List.mem_append.mp hc with hc | hc
      · exact hdigits.isDigit c hc
      · exact areDigits_replicate _ c hc
    · rwa [List.head?_append_of_ne_nil _ hne]
    · intro f hf
      dsimp only at hf
      split at hf
      · cases hf
        exact ⟨by simp, by simp⟩
      · exact absurd hf (by simp)
  · next hlong =>
    refine ⟨⟨by simp [hne], fun c hc => hdigits.isDigit c (List.mem_of_mem_take hc)⟩, .inr ?_, ?_⟩
    · rwa [List.head?_take, if_neg (by omega)]
    · rintro f ⟨rfl⟩
      refine ⟨?_, fun c hc => hdigits.isDigit c (List.mem_of_mem_drop hc)⟩
      rw [Ne, List.drop_eq_nil_iff]
      omega

theorem value_positionalSpelling (l : Layout) (hdigits : AreDigits sig) :
    (l.positionalSpelling sig lead).decimal.value
      = (value sig : Rat) * 10 ^ (lead + 1 - sig.length) := by
  have hpos : 0 < sig.length := List.length_pos_iff.mpr hdigits.ne_nil
  rw [positionalSpelling]
  split
  · next hneg =>
    have hexponent : (0 : Int) - ((-lead - 1).toNat + sig.length : Nat) = lead + 1 - sig.length := by
      omega
    rw [Spelling.value_decimal]
    simp only [Option.getD_some, Option.getD_none, List.length_append, List.length_replicate, hexponent]
    rw [value_append, value_append, value_replicate, Nat.zero_mul, Nat.zero_add]
    simp [value]
  dsimp only
  split
  · next hshort =>
    have hexponent : lead + 1 - sig.length = (lead.toNat + 1 - sig.length : Nat) := by omega
    rw [Spelling.value_decimal, hexponent, zpow_natCast]
    split
    · simp only [Option.getD_some, Option.getD_none, List.length_singleton]
      rw [value_append, value_append, value_replicate, List.length_replicate,
        show value ['0'] = 0 from rfl]
      push_cast
      rw [List.length_singleton, zpow_neg_one]
      ring
    · simp only [Option.getD_none, List.append_nil]
      rw [value_append, value_replicate, List.length_replicate]
      simp
  · next hlong =>
    have hexponent : (0 : Int) - (sig.length - (lead.toNat + 1) : Nat) = lead + 1 - sig.length := by
      omega
    rw [Spelling.value_decimal]
    simp only [Option.getD_some, Option.getD_none, List.take_append_drop, List.length_drop, hexponent]

theorem scientificSpelling_valid (hdigits : AreDigits sig) (hhead : sig.head? ≠ some '0') :
    (scientificSpelling sig lead).Valid := by
  have hne := hdigits.ne_nil
  rw [scientificSpelling]
  refine ⟨⟨by simp [hne], fun c hc => hdigits.isDigit c (List.mem_of_mem_take hc)⟩, .inr ?_, ?_⟩
  · rwa [List.head?_take, if_neg (by decide)]
  · intro f hf
    dsimp only at hf
    split at hf
    · exact absurd hf (by simp)
    · next hlong =>
      cases hf
      refine ⟨?_, fun c hc => hdigits.isDigit c (List.mem_of_mem_drop hc)⟩
      rw [Ne, List.drop_eq_nil_iff]
      omega

theorem value_scientificSpelling (hdigits : AreDigits sig) :
    (scientificSpelling sig lead).decimal.value
      = (value sig : Rat) * 10 ^ (lead + 1 - sig.length) := by
  have hpos : 0 < sig.length := List.length_pos_iff.mpr hdigits.ne_nil
  rw [scientificSpelling, Spelling.value_decimal]
  split
  · next hshort =>
    have hexponent : lead - (0 : Nat) = lead + 1 - sig.length := by omega
    simp only [Option.getD_some, Option.getD_none, List.append_nil, List.take_of_length_le hshort,
      List.length_nil, hexponent]
  · have hexponent : lead - (sig.length - 1 : Nat) = lead + 1 - sig.length := by omega
    simp only [Option.getD_some, List.take_append_drop, List.length_drop, hexponent]

/-- **What a layout writes is a valid spelling of the number.** -/
theorem spelling_spec (l : Layout) {d : Decimal} (hd : 0 < d.significand) :
    (l.spelling d).Valid ∧ (l.spelling d).decimal.value = d.value := by
  obtain ⟨hdigits, hhead, hvalue⟩ := significant_spec hd
  rw [spelling, hvalue]
  split
  · exact ⟨positionalSpelling_valid l hdigits hhead, value_positionalSpelling l hdigits⟩
  · exact ⟨scientificSpelling_valid hdigits hhead, value_scientificSpelling hdigits⟩

/-- **What a layout writes for a finite double is worth this double**, with its sign put back. -/
theorem toSignedFloat_spelling_shortest (l : Layout) {x : Float} {s : Float.Model.UnpackedFloat.Sign}
    {m : Nat} {e : Int} {hm : 0 < m} (hx : x.toModel.unpack = .finite s m e hm) :
    (l.spelling (Decimal.shortest l.tie x.abs m e)).decimal.toSignedFloat (s == .negative) = x := by
  have habs := Binary64.unpack_abs hx
  have hpos := Decimal.significand_shortest_pos l.tie habs
  have hread : (l.spelling (Decimal.shortest l.tie x.abs m e)).decimal.toFloat = x.abs := by
    rw [Decimal.toFloat_congr (l.spelling_spec hpos).2]
    exact Decimal.toFloat_shortest l.tie habs
  cases s with
  | positive =>
    change Decimal.toFloat _ = x
    rw [hread, Binary64.abs_of_positive hx]
  | negative =>
    change -Decimal.toFloat _ = x
    rw [hread, Binary64.neg_abs hx]

/-- A layout that gives whole numbers a fraction never writes digits alone. -/
theorem not_whole_spelling {l : Layout} (hl : l.wholeFraction = true) (d : Decimal) :
    ((l.spelling d).fraction.isNone && (l.spelling d).power.isNone) = false := by
  rw [spelling]
  split
  · rw [positionalSpelling]
    split
    · rfl
    · dsimp only
      split <;> rfl
  · simp [scientificSpelling]

end Layout

end Dataflow
