import Dataflow.Number.Shortest
import Dataflow.Proofs.Rounding
/-!
# Decimals that are read and written

Reading a decimal takes a shortcut when it has few digits and a power of ten that is a double, and
cuts off what is beside the range of doubles. Main statements: however a decimal is read, the result
is the double nearest to its value (`Decimal.toFloat_eq`), and the shortest spelling of a double is
read back as it (`Decimal.toFloat_shortest`).
-/
set_option autoImplicit false

namespace Dataflow

open Float.Model (UnpackedFloat)
open Float.Model.Format (binary64)
open Float.Model.UnpackedFloat

/-! ## Reading decimals -/

namespace Decimal

open Binary64

/-- The number that a decimal stands for. -/
def value (d : Decimal) : Rat :=
  d.significand * 10 ^ d.exponent

theorem value_pos {d : Decimal} (h : 0 < d.significand) : 0 < d.value :=
  mul_pos (by exact_mod_cast h) (zpow_pos (by norm_num) _)

end Decimal

namespace Binary64

theorem toModel_toFloat_toUInt64 {n : Nat} (hpos : 0 < n) (hlt : n < 2 ^ 53) :
    n.toUInt64.toFloat.toModel = .pack (nearest .positive n) := by
  have hn : n.toUInt64.toNat = n := UInt64.toNat_ofNat_of_lt' (by rw [UInt64.size]; omega)
  have hcompare : compare (n : Int) 0 = .gt := by
    rw [compare_gt_iff_gt]
    omega
  have hround := round_eq_nearest .positive hpos 0
  rw [zpow_zero, mul_one] at hround
  rw [← hround]
  change Float.Model.pack (UnpackedFloat.normalize binary64 n.toUInt64.toNat 0 .positive) = _
  rw [hn, UnpackedFloat.normalize, hcompare, Int.toNat_natCast]

/-- The table of powers of ten that are doubles. -/
theorem exactlyRepresentablePowersOfTen_eq :
    ∀ (k : Nat) (hk : k < Float.exactlyRepresentablePowersOfTen.size),
      Float.exactlyRepresentablePowersOfTen[k]
        = .ofModel (.pack (UnpackedFloat.round binary64 .positive (5 ^ k) k)) := by
  decide +kernel

end Binary64

namespace Decimal

open Binary64

theorem huge {n : Nat} {e : Int} (hpos : 0 < n) (he : 2048 < e) :
    2 ^ (1100 : Int) ≤ value ⟨n, e⟩ := by
  have hn : (1 : Rat) ≤ n := by exact_mod_cast hpos
  calc (2 : Rat) ^ (1100 : Int) ≤ 2 ^ e := zpow_le_zpow_right₀ one_le_two (by omega)
    _ ≤ 10 ^ e := zpow_le_zpow_left₀ (by omega) two_pos.le (by norm_num)
    _ ≤ n * 10 ^ e := le_mul_of_one_le_left (zpow_pos (by norm_num) e).le hn

theorem tiny {n : Nat} {e : Int} (he : e < -(2048 + n.log2)) :
    value ⟨n, e⟩ < 2 ^ (-1075 : Int) := by
  have hn : (n : Rat) < 2 ^ ((n.log2 : Int) + 1) := by exact_mod_cast Nat.lt_log2_self
  have hten : (10 : Rat) ^ e ≤ 2 ^ e := by
    rw [← inv_le_inv₀ (two_zpow_pos e) (zpow_pos (by norm_num) e), ← zpow_neg, ← zpow_neg]
    exact zpow_le_zpow_left₀ (by omega) two_pos.le (by norm_num)
  calc (n * 10 ^ e : Rat) ≤ n * 2 ^ e := mul_le_mul_of_nonneg_left hten (Nat.cast_nonneg n)
    _ < 2 ^ ((n.log2 : Int) + 1) * 2 ^ e := mul_lt_mul_of_pos_right hn (two_zpow_pos e)
    _ = 2 ^ ((n.log2 : Int) + 1 + e) := (zpow_add₀ two_ne_zero _ _).symm
    _ ≤ 2 ^ (-1075 : Int) := zpow_le_zpow_right₀ one_le_two (by omega)

/-- The slow reading, which cuts off what is beside the range of doubles first. -/
theorem ofScientific_eq (n : Nat) (e : Int) :
    Float.Model.ofScientific n e = .pack (nearest .positive (value ⟨n, e⟩)) := by
  rw [Float.Model.ofScientific, UnpackedFloat.ofScientific]
  by_cases hn : n = 0
  · rw [dif_pos hn, value, hn, Nat.cast_zero, zero_mul, nearest_zero]
  have hpos : 0 < n := Nat.pos_of_ne_zero hn
  rw [dif_neg hn]
  split
  · next hlarge => rw [pack_nearest_of_huge (huge hpos hlarge)]
  split
  · next hsmall => rw [nearest_of_tiny .positive (value_pos hpos) (tiny hsmall)]
  split
  · next hnonneg =>
    obtain ⟨k, rfl⟩ := Int.eq_ofNat_of_zero_le hnonneg
    have hdigits : 2 ^ 52 ≤ (n <<< binary64.mantissaBits) * 10 ^ k := by
      rw [Nat.shiftLeft_eq]
      calc 2 ^ 52 ≤ 1 * 2 ^ 53 * 1 := by norm_num
        _ ≤ n * 2 ^ 53 * 10 ^ k :=
          Nat.mul_le_mul (Nat.mul_le_mul_right _ hpos) (Nat.one_le_pow _ _ (by norm_num))
    simp only [Int.toNat_natCast]
    rw [mul_eq_nearest _ _ _ _ hdigits]
    congr 2
    rw [value, Nat.shiftLeft_eq, zpow_neg, zpow_natCast, zpow_natCast]
    push_cast
    field_simp
  · next hneg =>
    obtain ⟨k, hk⟩ := Int.eq_ofNat_of_zero_le (show 0 ≤ -e by omega)
    obtain rfl : e = -k := by omega
    rw [div_eq_nearest]
    congr 2
    rw [value, zpow_neg, zpow_natCast, neg_neg, Int.toNat_natCast]
    push_cast
    field_simp

/-- The fast reading, for few digits: a double times or divided by a power of ten that is a double. -/
theorem fast_eq {n k : Nat} {power : Float} (hn : n < 2 ^ 53) (hk : k ≤ 22)
    (hpower : power = .ofModel (.pack (UnpackedFloat.round binary64 .positive (5 ^ k) k))) :
    n.toUInt64.toFloat * power = .ofModel (.pack (nearest .positive (value ⟨n, k⟩))) ∧
      n.toUInt64.toFloat / power = .ofModel (.pack (nearest .positive (value ⟨n, -k⟩))) := by
  have hfive : 0 < 5 ^ k := Nat.pow_pos (by decide)
  have hbound : 5 ^ k < 2 ^ 53 :=
    lt_of_le_of_lt (Nat.pow_le_pow_right (by decide) hk) (by decide)
  obtain ⟨m₂, e₂, h₂, hunpack₂, -, hten⟩ := unpack_pack_nearest hfive hbound (k := k) (by omega)
  have hten' : (m₂ * 2 ^ e₂ : Rat) = 10 ^ k := by
    rw [hten]
    push_cast
    rw [← mul_pow]
    norm_num
  have hmodel : power.toModel = .pack (nearest .positive ((5 ^ k : Nat) * 2 ^ k)) := by
    have hround := round_eq_nearest .positive hfive k
    rw [zpow_natCast] at hround
    rw [hpower, hround]
  have hup : value ⟨n, k⟩ = n * (m₂ * 2 ^ e₂) := by rw [hten', value, zpow_natCast]
  have hdown : value ⟨n, -k⟩ = n / (m₂ * 2 ^ e₂) := by
    rw [hten', value, zpow_neg, zpow_natCast, div_eq_mul_inv]
  rcases Nat.eq_zero_or_pos n with rfl | hpos
  · have hzero : (0 : Nat).toUInt64.toFloat.toModel.unpack = .zero .positive := by rfl
    constructor
    · change Float.ofModel (.pack (UnpackedFloat.mul binary64 _ power.toModel.unpack)) = _
      rw [hzero, hmodel, hunpack₂, hup, Nat.cast_zero, zero_mul, nearest_zero]
      rfl
    · change Float.ofModel (.pack (UnpackedFloat.div binary64 _ power.toModel.unpack)) = _
      rw [hzero, hmodel, hunpack₂, hdown, Nat.cast_zero, zero_div, nearest_zero]
      rfl
  · obtain ⟨m₁, e₁, h₁, hunpack₁, hdigits, hn'⟩ := unpack_pack_nearest hpos hn (k := 0) (by omega)
    rw [pow_zero, mul_one] at hunpack₁ hn'
    constructor
    · change Float.ofModel (.pack (UnpackedFloat.mul binary64 _ power.toModel.unpack)) = _
      rw [toModel_toFloat_toUInt64 hpos hn, hunpack₁, hmodel, hunpack₂,
        mul_eq_nearest _ _ _ _ (le_trans hdigits (Nat.le_mul_of_pos_right _ h₂)), hn', hup]
    · change Float.ofModel (.pack (UnpackedFloat.div binary64 _ power.toModel.unpack)) = _
      rw [toModel_toFloat_toUInt64 hpos hn, hunpack₁, hmodel, hunpack₂, div_eq_nearest, hn', hdown]

/-- **A decimal is read as the double nearest to its value.** -/
theorem toFloat_eq (d : Decimal) : d.toFloat = .ofModel (.pack (nearest .positive d.value)) := by
  obtain ⟨n, e⟩ := d
  rw [toFloat, Float.ofScientific]
  dsimp only
  split
  · next hfast =>
    obtain ⟨hup, hdown⟩ := fast_eq hfast.1 hfast.2
      (exactlyRepresentablePowersOfTen_eq e.natAbs (Nat.lt_succ_of_le hfast.2))
    split
    · next hneg =>
      refine hdown.trans ?_
      congr 5
      simp only [decide_eq_true_eq] at hneg
      omega
    · next hnonneg =>
      refine hup.trans ?_
      congr 5
      simp only [decide_eq_true_eq] at hnonneg
      omega
  · next hslow =>
    rw [← ofScientific_eq]
    congr 2
    cases e with
    | ofNat k => rfl
    | negSucc k =>
      rw [if_pos (decide_eq_true (Int.negSucc_lt_zero k))]
      rfl

/-- Two spellings of one number are read as the same double. -/
theorem toFloat_congr {d d' : Decimal} (h : d.value = d'.value) : d.toFloat = d'.toFloat := by
  rw [toFloat_eq, toFloat_eq, h]

/-- A decimal that is neither small nor large is read as a finite double. -/
theorem isFinite_toFloat_of_lt {d : Decimal} (hone : 1 ≤ d.value) (hlt : d.value < 2 ^ (1000 : Int)) :
    d.toFloat.isFinite = true := by
  obtain ⟨m, e, h, hnearest, hcanonical⟩ := canonical_of_nearest hone hlt .positive
  rw [toFloat_eq, hnearest, isFinite_eq]
  dsimp only
  rw [unpack_pack hcanonical]
  rfl

/-- Every decimal is read as a number. -/
theorem unpack_toSignedFloat_ne_nan (negative : Bool) (d : Decimal) :
    (d.toSignedFloat negative).toModel.unpack ≠ .notANumber := by
  have hsize : d.toFloat.toModel.unpack ≠ .notANumber := by
    rw [toFloat_eq]
    refine unpack_pack_ne_nan ?_
    rw [nearest, settle]
    split <;> simp
  rw [toSignedFloat]
  split
  · exact unpack_neg_ne_nan hsize
  · exact hsize

/-! ## The digits that are written -/

theorem value_ofBinary (m : Nat) (e : Int) : (ofBinary m e).value = m * 2 ^ e := by
  rw [ofBinary]
  split
  · next hnonneg =>
    obtain ⟨k, rfl⟩ := Int.eq_ofNat_of_zero_le hnonneg
    rw [value, Nat.shiftLeft_eq, Int.toNat_natCast, zpow_natCast, zpow_zero]
    push_cast
    ring
  · next hneg =>
    obtain ⟨k, hk⟩ := Int.eq_ofNat_of_zero_le (show 0 ≤ -e by omega)
    obtain rfl : e = -k := by omega
    rw [value, neg_neg, Int.toNat_natCast, zpow_neg, zpow_neg, zpow_natCast, zpow_natCast]
    have hten : (10 : Rat) ^ k = 2 ^ k * 5 ^ k := by
      rw [← mul_pow]
      norm_num
    have hfive : ((Nat.pow 5 k : Nat) : Rat) = 5 ^ k := by exact_mod_cast rfl
    rw [Nat.cast_mul, hfive, hten]
    field_simp

/-- The exact value of a double is read back as it. -/
theorem toFloat_ofBinary {x : Float} {m : Nat} {e : Int} {hm : 0 < m}
    (hx : x.toModel.unpack = .finite .positive m e hm) : (ofBinary m e).toFloat = x := by
  rw [toFloat_eq, value_ofBinary, (canonical_of_unpack hx).nearest, ← hx, ← eq_ofModel_pack]

/-- A decimal that was found to read back as a positive double is read as it. -/
theorem toFloat_of_readsAs {x : Float} {m : Nat} {e : Int} {hm : 0 < m}
    (hx : x.toModel.unpack = .finite .positive m e hm) {d : Decimal} (h : d.readsAs x = true) :
    d.toFloat = x :=
  eq_of_beq_double hx h

theorem readsAs_of_neighbour? {tie : Tie} {x : Float} {exact d : Decimal} {cut : Nat}
    (h : neighbour? tie x exact cut = some d) : d.readsAs x = true := by
  cases hbelow : readsAs x ⟨exact.significand / Nat.pow 10 cut, exact.exponent + cut⟩ <;>
    cases habove : readsAs x ⟨exact.significand / Nat.pow 10 cut + 1, exact.exponent + cut⟩ <;>
    simp only [neighbour?, hbelow, habove] at h
  · exact absurd h (by simp)
  · cases h
    exact habove
  · cases h
    exact hbelow
  · -- Both read back, and one of them was taken.
    cases hcompare : compare (2 * (exact.significand % Nat.pow 10 cut)) (Nat.pow 10 cut) with
    | lt =>
      rw [hcompare] at h
      cases h
      exact hbelow
    | gt =>
      rw [hcompare] at h
      cases h
      exact habove
    | eq =>
      rw [hcompare] at h
      cases tie with
      | up =>
        cases h
        exact habove
      | even =>
        cases h
        split
        · exact hbelow
        · exact habove

/-- **The shortest spelling of a double is read back as it.** -/
theorem toFloat_shortest (tie : Tie) {x : Float} {m : Nat} {e : Int} {hm : 0 < m}
    (hx : x.toModel.unpack = .finite .positive m e hm) : (shortest tie x m e).toFloat = x := by
  rw [shortest]
  generalize (Digits.ofNat (ofBinary m e).significand).length - 1 = cut
  induction cut with
  | zero => exact toFloat_ofBinary hx
  | succ cut ih =>
    rw [shortestFrom]
    split
    · next d hd => exact toFloat_of_readsAs hx (readsAs_of_neighbour? hd)
    · exact ih

theorem toFloat_of_significand_zero {d : Decimal} (h : d.significand = 0) :
    d.toFloat.toModel.unpack = .zero .positive := by
  rw [toFloat_eq, value, h, Nat.cast_zero, zero_mul, nearest_zero]
  exact unpack_pack_zero .positive

theorem significand_shortest_pos (tie : Tie) {x : Float} {m : Nat} {e : Int} {hm : 0 < m}
    (hx : x.toModel.unpack = .finite .positive m e hm) : 0 < (shortest tie x m e).significand := by
  refine Nat.pos_of_ne_zero fun hzero => ?_
  have hread := toFloat_of_significand_zero hzero
  rw [toFloat_shortest tie hx, hx] at hread
  exact absurd hread (by simp)

end Decimal

end Dataflow
