import Mathlib
/-!
# Doubles and their bits

What a double is apart from its bits: a sign, a mantissa and an exponent, or one of the special
values. Main statements: packing what was unpacked gives the double back (`pack_unpack`), unpacking
gives back what was packed when it has the shape of a double (`unpack_pack`), and a number that is
equal to a positive double is this double (`eq_of_beq_double`).
-/
set_option autoImplicit false

namespace Dataflow.Binary64

open Float.Model (Format UnpackedFloat)
open Float.Model.Format (binary64)
open Float.Model.UnpackedFloat

/-! ## Bits -/

theorem toNat_implicit (m : BitVec 52) : (1#1 ++ m).toNat = 2 ^ 52 + m.toNat := by
  rw [BitVec.toNat_append, ← Nat.shiftLeft_add_eq_or_of_lt m.isLt]
  rfl

/-! ## Doubles -/

/-- The mantissas and exponents of finite doubles: the mantissa has all its 53 digits, or the exponent
is the least one. -/
structure Canonical (m : Nat) (e : Int) : Prop where
  pos : 0 < m
  lt : m < 2 ^ 53
  full : 2 ^ 52 ≤ m ∨ e = -1074
  least : -1074 ≤ e
  most : e ≤ 971

/-- The bits of a finite double. -/
theorem pack_finite {s : Sign} {m : Nat} {e : Int} {hm : 0 < m} (h : Canonical m e) :
    pack binary64 (.finite s m e hm) = packComponents binary64 s
      (if 2 ^ 52 ≤ m then BitVec.ofNat 11 (e + 1075).toNat else 0#11) (BitVec.ofNat 52 m) := by
  obtain ⟨-, hlt, hfull, hleast, hmost⟩ := h
  have hbias : e + (binary64.exponentBias : Int) + (binary64.mantissaBitsWithoutImplicit : Int)
      = e + 1075 := by
    simp only [Format.exponentBias]
    omega
  have hlog : m.log2 + 1 = 53 ↔ 2 ^ 52 ≤ m := by
    rw [← Nat.le_log2 (Nat.ne_of_gt hm)]
    have := (Nat.log2_lt (Nat.ne_of_gt hm)).mpr hlt
    omega
  unfold pack
  simp only [hbias]
  rw [if_neg (show ¬ 2 ^ 11 ≤ (e + 1075).toNat + 1 by omega)]
  change (if m.log2 + 1 = 53 then _ else _) = _
  simp only [hlog]
  split <;> rfl

/-- **Packing what was unpacked gives the double back.** -/
theorem pack_unpack (x : Float.Model) : .pack x.unpack = x := by
  obtain ⟨bits, hvalid⟩ := x
  simp only [Float.Model.pack, Float.Model.unpack, pack_unpack_of_valid hvalid,
    UInt64.ofBitVec_toBitVec]

/-- The numbers among the bits have the shape of a double: subnormal when the exponent bits are zero,
with the implicit digit otherwise. -/
theorem canonical_of_unpack_bits {b : BitVec binary64.numBits} {s : Sign} {m : Nat} {e : Int}
    {hm : 0 < m} (h : unpack binary64 b = .finite s m e hm) : Canonical m e := by
  have hmantissa : (unpackMantissa b).toNat < 2 ^ 52 := (unpackMantissa b).isLt
  have hexponent : (unpackExponent b).toNat < 2 ^ 11 := (unpackExponent b).isLt
  have hbias : ((binary64.exponentBias : Int) + (binary64.mantissaBitsWithoutImplicit : Int)) = 1075 := rfl
  unfold unpack at h
  simp only [hbias] at h
  by_cases hinf : unpackExponent b = -1#_
  · by_cases hzero : unpackMantissa b = 0#_ <;> simp [hinf, hzero] at h
  by_cases hsub : unpackExponent b = 0#_
  · by_cases hzero : unpackMantissa b = 0#_
    · simp [hsub, hzero] at h
    · have hleast : (unpackExponent b).toNat = 0 := by
        rw [hsub]
        rfl
      rw [if_neg hinf, if_pos hsub, dif_neg hzero] at h
      injection h with _ hm' he
      exact ⟨hm, by omega, .inr (by omega), by omega, by omega⟩
  · have hbelow : (unpackExponent b).toNat ≠ 2 ^ 11 - 1 := fun heq =>
      hinf (BitVec.eq_of_toNat_eq (by rw [heq]; rfl))
    have habove : (unpackExponent b).toNat ≠ 0 := fun heq =>
      hsub (BitVec.eq_of_toNat_eq (by rw [heq]; rfl))
    have himplicit := toNat_implicit (unpackMantissa b)
    rw [if_neg hinf, if_neg hsub] at h
    injection h with _ hm' he
    exact ⟨hm, by omega, .inl (by omega), by omega, by omega⟩

theorem canonical_of_unpack {x : Float.Model} {s : Sign} {m : Nat} {e : Int} {hm : 0 < m}
    (h : x.unpack = .finite s m e hm) : Canonical m e :=
  canonical_of_unpack_bits h

/-- **Unpacking what was packed gives a finite double back.** -/
theorem unpack_pack {s : Sign} {m : Nat} {e : Int} {hm : 0 < m} (h : Canonical m e) :
    (Float.Model.pack (.finite s m e hm)).unpack = .finite s m e hm := by
  have hbias : ((binary64.exponentBias : Int) + (binary64.mantissaBitsWithoutImplicit : Int)) = 1075 := rfl
  change unpack binary64 (pack binary64 (.finite s m e hm)) = _
  rw [pack_finite h]
  obtain ⟨-, hlt, hfull, hleast, hmost⟩ := h
  have hmod : (BitVec.ofNat 52 m).toNat = m % 2 ^ 52 := BitVec.toNat_ofNat m 52
  unfold unpack
  simp only [unpackMantissa_packComponents, unpackExponent_packComponents, hbias]
  rw [unpackSign_packComponents, Sign.ofBitVec_toBitVec]
  by_cases hnormal : 2 ^ 52 ≤ m
  · have hexponent : (BitVec.ofNat 11 (e + 1075).toNat).toNat = (e + 1075).toNat := by
      rw [BitVec.toNat_ofNat, Nat.mod_eq_of_lt (by omega)]
    have hinf : BitVec.ofNat 11 (e + 1075).toNat ≠ -1#11 := fun heq => by
      have := congrArg BitVec.toNat heq
      rw [hexponent, show (-1#11).toNat = 2047 from rfl] at this
      omega
    have hsub : BitVec.ofNat 11 (e + 1075).toNat ≠ 0#11 := fun heq => by
      have := congrArg BitVec.toNat heq
      rw [hexponent, show (0#11).toNat = 0 from rfl] at this
      omega
    have himplicit : (1#1 ++ BitVec.ofNat 52 m).toNat = m := by
      rw [toNat_implicit, hmod]
      omega
    rw [if_pos hnormal, if_neg hinf, if_neg hsub]
    congr 1
    omega
  · have hnonzero : ¬ BitVec.ofNat 52 m = 0#52 := fun heq => by
      have := congrArg BitVec.toNat heq
      rw [hmod, show (0#52).toNat = 0 from rfl] at this
      omega
    rw [if_neg hnormal, if_neg (by decide), if_pos rfl, dif_neg hnonzero]
    congr 1
    · omega
    · have := hfull.resolve_left hnormal
      simp only [this]
      rfl

theorem unpack_pack_zero (s : Sign) : (Float.Model.pack (.zero s)).unpack = .zero s := by
  cases s <;> rfl

theorem unpack_pack_infinity (s : Sign) : (Float.Model.pack (.infinity s)).unpack = .infinity s := by
  cases s <;> rfl

/-- The bits of a finite number are those of an infinity or have an exponent of their own. -/
theorem pack_finite_cases (s : Sign) {m : Nat} (e : Int) (hm : 0 < m) :
    pack binary64 (.finite s m e hm) = packedInfinity binary64 s ∨
      ∃ (exponent : BitVec 11) (mantissa : BitVec 52), exponent ≠ -1#11 ∧
        pack binary64 (.finite s m e hm) = packComponents binary64 s exponent mantissa := by
  unfold pack
  dsimp only
  split
  · exact .inl rfl
  · next hlarge =>
    refine .inr ?_
    split
    · refine ⟨_, _, fun heq => ?_, rfl⟩
      have hvalue := congrArg BitVec.toNat heq
      rw [BitVec.toNat_ofNat, show (-1#11).toNat = 2 ^ 11 - 1 from rfl] at hvalue
      change ¬ 2 ^ 11 ≤ _ at hlarge
      rw [Nat.mod_eq_of_lt (by omega)] at hvalue
      omega
    · exact ⟨_, _, by decide, rfl⟩

/-- Packing makes a number of every number. -/
theorem unpack_pack_ne_nan {u : UnpackedFloat} (hu : u ≠ .notANumber) :
    (Float.Model.pack u).unpack ≠ .notANumber := by
  intro hnan
  have hbits : pack binary64 u = packedNaN binary64 :=
    (unpack_eq_notANumber_iff_of_valid (Float.Model.pack u).valid).mp hnan
  have hexponent : unpackExponent (pack binary64 u) = -1#_ := by
    rw [hbits]
    exact unpackExponent_packComponents
  have hmantissa : unpackMantissa (pack binary64 u) ≠ 0#_ := by
    rw [hbits, packedNaN, unpackMantissa_packComponents]
    decide
  cases u with
  | notANumber => exact hu rfl
  | infinity s => exact hmantissa unpackMantissa_packComponents
  | zero s => cases s <;> exact absurd hexponent (by decide)
  | finite s m e hm =>
    rcases pack_finite_cases s e hm with hpack | ⟨exponent, mantissa, hne, hpack⟩
    · rw [hpack] at hmantissa
      exact hmantissa unpackMantissa_packComponents
    · rw [hpack, unpackExponent_packComponents] at hexponent
      exact hne hexponent

/-! ## Numbers -/

variable {x y : Float} {s : Sign} {m : Nat} {e : Int} {hm : 0 < m}

theorem eq_ofModel_pack (x : Float) : x = .ofModel (.pack x.toModel.unpack) := by
  rw [pack_unpack]

theorem eq_of_unpack_eq (h : x.toModel.unpack = y.toModel.unpack) : x = y := by
  rw [eq_ofModel_pack x, h, ← eq_ofModel_pack]

/-- A number that is equal to a positive double is this double. -/
theorem eq_of_beq_double (hx : x.toModel.unpack = .finite .positive m e hm) (h : (y == x) = true) :
    y = x := by
  have hbeq : y.toModel.unpack.beq x.toModel.unpack = true := h
  obtain ⟨-, -, heq | ⟨-, hzero⟩ | ⟨-, hzero⟩⟩ := (beq_iff_ne_notANumber_and_eq _ _).mp hbeq
  · exact eq_of_unpack_eq heq
  · exact absurd (hx.symm.trans hzero) (by simp)
  · exact absurd (hx.symm.trans hzero) (by simp)

theorem toModel_neg (x : Float) : (-x).toModel = .pack x.toModel.unpack.neg := rfl

theorem toModel_abs (x : Float) : x.abs.toModel = .pack x.toModel.unpack.abs := rfl

theorem unpack_abs (hx : x.toModel.unpack = .finite s m e hm) :
    x.abs.toModel.unpack = .finite .positive m e hm := by
  rw [toModel_abs, hx]
  exact unpack_pack (canonical_of_unpack hx)

/-- A finite double is its size, with a minus when it is negative. -/
theorem neg_abs (hx : x.toModel.unpack = .finite .negative m e hm) : -x.abs = x := by
  have hneg : (-x.abs).toModel = x.toModel := by
    rw [toModel_neg, unpack_abs hx, ← pack_unpack x.toModel, hx]
    rfl
  exact congrArg Float.ofModel hneg

theorem abs_of_positive (hx : x.toModel.unpack = .finite .positive m e hm) : x.abs = x :=
  eq_of_unpack_eq ((unpack_abs hx).trans hx.symm)

theorem isFinite_iff (x : Float) :
    x.isFinite = true ↔ x.toModel.unpack ≠ .notANumber ∧ x.isInf = false := by
  change x.toModel.unpack.isFinite = true ↔ _ ∧ x.toModel.unpack.isInf = false
  cases x.toModel.unpack <;> simp [UnpackedFloat.isFinite, UnpackedFloat.isInf]

theorem isFinite_eq (x : Float) : x.isFinite = x.toModel.unpack.isFinite := rfl

theorem unpack_neg (x : Float) : (-x).toModel.unpack = x.toModel.unpack.neg := by
  rw [toModel_neg]
  cases hx : x.toModel.unpack with
  | notANumber => rfl
  | infinity s => exact unpack_pack_infinity _
  | zero s => exact unpack_pack_zero _
  | finite s m e hm => exact unpack_pack (canonical_of_unpack hx)

theorem unpack_neg_ne_nan (h : x.toModel.unpack ≠ .notANumber) :
    (-x).toModel.unpack ≠ .notANumber := by
  rw [unpack_neg]
  cases hx : x.toModel.unpack with
  | notANumber => exact absurd hx h
  | _ => simp [UnpackedFloat.neg]

theorem isFinite_neg (x : Float) : (-x).isFinite = x.isFinite := by
  rw [isFinite_eq, isFinite_eq, unpack_neg]
  cases x.toModel.unpack <;> rfl

end Dataflow.Binary64
