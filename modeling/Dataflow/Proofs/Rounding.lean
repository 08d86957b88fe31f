import Dataflow.Proofs.Doubles
/-!
# Rounding to the nearest double

The arithmetic of doubles computes with whole mantissas, cuts off the digits that have no room, and
keeps of them one digit and whether anything follows it. Here this is read over the rational numbers:
products, quotients and whole numbers are rounded to the nearest double, of two equally near ones to
the even one.

Main statements: what represents a number is rounded to the double nearest to it
(`roundWithAccuracy_eq_nearest`), and a double is what is nearest to its own value
(`Canonical.nearest`).
-/
set_option autoImplicit false

namespace Dataflow.Binary64

open Float.Model (Format UnpackedFloat totalExponent)
open Float.Model.Format (binary64)
open Float.Model.UnpackedFloat

/-- The whole number nearest to `r`, of two equally near ones the even one. -/
def halfEven (r : Rat) : Nat :=
  match compare (2 * (r - ⌊r⌋₊)) 1 with
  | .lt => ⌊r⌋₊
  | .eq => ⌊r⌋₊ + ⌊r⌋₊ % 2
  | .gt => ⌊r⌋₊ + 1

@[simp]
theorem halfEven_natCast (n : Nat) : halfEven n = n := by
  have hcompare : compare (2 * ((n : Rat) - n)) 1 = .lt := by
    rw [compare_lt_iff_lt]
    norm_num
  rw [halfEven, Nat.floor_natCast, hcompare]

theorem halfEven_of_lt_half {r : Rat} (h : r < 1 / 2) : halfEven r = 0 := by
  have hfloor : ⌊r⌋₊ = 0 := by
    rw [Nat.floor_eq_zero]
    linarith
  have hcompare : compare (2 * (r - (0 : Nat))) 1 = .lt := by
    rw [compare_lt_iff_lt]
    push_cast
    linarith
  rw [halfEven, hfloor, hcompare]

theorem halfEven_mem (r : Rat) : halfEven r = ⌊r⌋₊ ∨ halfEven r = ⌊r⌋₊ + 1 := by
  rw [halfEven]
  split
  · exact .inl rfl
  · omega
  · exact .inr rfl

/-- A mantissa with its residual bits stands for `r`: the round bit is the first binary digit after
the point, and the sticky bit tells whether anything follows it. -/
structure Represents (em : ExtendedMantissa) (r : Rat) : Prop where
  exists_tail : ∃ tail : Rat, 0 ≤ tail ∧ tail < 1 / 2 ∧ (em.stickyBit ↔ 0 < tail) ∧
    r = em.mantissa + (if em.roundBit then 1 / 2 else 0) + tail

namespace Represents

variable {em : ExtendedMantissa} {r : Rat}

theorem floor_eq (h : Represents em r) : ⌊r⌋₊ = em.mantissa := by
  obtain ⟨tail, hnonneg, hlt, -, rfl⟩ := h
  have hbits : (0 : Rat) ≤ (if em.roundBit then 1 / 2 else 0) ∧
      (if em.roundBit then 1 / 2 else 0) ≤ (1 / 2 : Rat) := by
    split <;> norm_num
  rw [Nat.floor_eq_iff (by positivity)]
  constructor <;> linarith

theorem roundedMantissa_eq (h : Represents em r) : em.roundedMantissa = halfEven r := by
  have hfloor := h.floor_eq
  obtain ⟨tail, hnonneg, hlt, hsticky, hr⟩ := h
  rw [halfEven, hfloor]
  obtain ⟨m, round, sticky⟩ := em
  simp only at hr hsticky ⊢
  cases round with
  | false =>
    have hlow : compare (2 * (r - m)) 1 = .lt := by
      rw [compare_lt_iff_lt, hr]
      simp
      linarith
    rw [hlow]
    cases sticky <;> rfl
  | true =>
    cases sticky with
    | false =>
      have htail : tail = 0 := by
        simp at hsticky
        linarith
      have hmid : compare (2 * (r - m)) 1 = .eq := by
        rw [compare_eq_iff_eq, hr, htail]
        simp
      rw [hmid]
      rfl
    | true =>
      have hhigh : compare (2 * (r - m)) 1 = .gt := by
        simp at hsticky
        rw [compare_gt_iff_gt, hr]
        simp
        linarith
      rw [hhigh]
      rfl

theorem shiftRightOne (h : Represents em r) : Represents em.shiftRightOne (r / 2) := by
  obtain ⟨tail, hnonneg, hlt, hsticky, rfl⟩ := h
  have hhalves : (em.mantissa : Rat) = 2 * (em.mantissa / 2 : Nat) + (em.mantissa % 2 : Nat) := by
    exact_mod_cast (Nat.div_add_mod em.mantissa 2).symm
  refine ⟨((if em.roundBit then 1 / 2 else 0) + tail) / 2, ?_, ?_, ?_, ?_⟩
  · split <;> linarith
  · split <;> linarith
  · simp only [ExtendedMantissa.shiftRightOne, Bool.or_eq_true, hsticky]
    split
    · simp only [*, true_or, true_iff]
      linarith
    · simp [*]
  · simp only [ExtendedMantissa.shiftRightOne]
    rcases Nat.mod_two_eq_zero_or_one em.mantissa with hmod | hmod <;>
      rw [hmod] at hhalves <;> simp [hmod] <;> rw [hhalves] <;> push_cast <;> ring

theorem shiftRight (h : Represents em r) (n : Nat) : Represents (em >>> n) (r / 2 ^ n) := by
  change Represents (n.repeat ExtendedMantissa.shiftRightOne em) (r / 2 ^ n)
  induction n with
  | zero => simpa [Nat.repeat] using h
  | succ n ih =>
    rw [Nat.repeat, pow_succ, ← div_div]
    exact ih.shiftRightOne

theorem ofExact (n : Nat) : Represents (.ofMantissaAndAccuracy n .exact) n :=
  ⟨0, le_rfl, by norm_num, by simp [ExtendedMantissa.ofMantissaAndAccuracy],
    by simp [ExtendedMantissa.ofMantissaAndAccuracy]⟩

/-- A quotient of whole numbers, cut after the point, with what its remainder tells. -/
theorem ofFraction (n : Nat) {d : Nat} (hd : 0 < d) :
    Represents (.ofMantissaAndAccuracy (n / d) (accuracyOfFraction (n % d) d)) (n / d : Rat) := by
  have hd' : (0 : Rat) < d := by exact_mod_cast hd
  have hsplit : (n / d : Rat) = (n / d : Nat) + (n % d : Nat) / d := by
    rw [div_eq_iff hd'.ne', add_mul, div_mul_cancel₀ _ hd'.ne']
    exact_mod_cast (Nat.div_add_mod' n d).symm
  have hlt : n % d < d := Nat.mod_lt n hd
  rw [accuracyOfFraction]
  by_cases hzero : n % d = 0
  · rw [if_pos hzero, hsplit, hzero]
    simpa using ofExact (n / d)
  have hpos : (0 : Rat) < (n % d : Nat) / d := div_pos (by exact_mod_cast Nat.pos_of_ne_zero hzero) hd'
  rw [if_neg hzero]
  rcases Nat.lt_trichotomy (2 * (n % d)) d with hlow | hmid | hhigh
  · have htail : (n % d : Nat) / (d : Rat) < 1 / 2 := by
      rw [div_lt_div_iff₀ hd' two_pos]
      exact_mod_cast (by omega : (n % d) * 2 < 1 * d)
    rw [Nat.compare_eq_lt.mpr hlow]
    exact ⟨_, hpos.le, htail, by simpa [ExtendedMantissa.ofMantissaAndAccuracy] using hpos,
      by simp [ExtendedMantissa.ofMantissaAndAccuracy, hsplit]⟩
  · have htail : (n % d : Nat) / (d : Rat) = 1 / 2 := by
      rw [div_eq_div_iff hd'.ne' two_ne_zero]
      exact_mod_cast (by omega : (n % d) * 2 = 1 * d)
    rw [Nat.compare_eq_eq.mpr hmid]
    exact ⟨0, le_rfl, by norm_num, by simp [ExtendedMantissa.ofMantissaAndAccuracy],
      by simp [ExtendedMantissa.ofMantissaAndAccuracy, hsplit, htail]⟩
  · have htail : 1 / 2 < (n % d : Nat) / (d : Rat) ∧ (n % d : Nat) / (d : Rat) < 1 := by
      rw [div_lt_div_iff₀ two_pos hd', div_lt_one hd']
      exact_mod_cast (by omega : 1 * d < (n % d) * 2 ∧ n % d < d)
    rw [Nat.compare_eq_gt.mpr hhigh]
    refine ⟨(n % d : Nat) / d - 1 / 2, by linarith, by linarith, ?_, ?_⟩
    · simpa [ExtendedMantissa.ofMantissaAndAccuracy] using htail.1
    · simp [ExtendedMantissa.ofMantissaAndAccuracy, hsplit]

end Represents

/-! ## Rounding -/

/-- The exponent of the last binary digit that a double near `q` has. -/
def lastBit (q : Rat) : Int :=
  max (Int.log 2 q - 52) (-1074)

/-- A whole multiple of a power of two that is already rounded, with at most one bit to spare. -/
def settle (s : Sign) (mantissa : Nat) (exponent : Int) : UnpackedFloat :=
  let shifted := shiftToTargetExponent binary64 mantissa exponent .exact
  if h : shifted.1.mantissa = 0 then .zero s
  else .finite s shifted.1.mantissa shifted.2 (Nat.pos_of_ne_zero h)

/-- The double nearest to `q` with the sign `s`; its exponent may be too large. -/
def nearest (s : Sign) (q : Rat) : UnpackedFloat :=
  settle s (halfEven (q / 2 ^ lastBit q)) (lastBit q)

theorem lt_two_zpow_iff {q : Rat} (hq : 0 < q) {k : Int} : q < 2 ^ k ↔ Int.log 2 q < k := by
  exact_mod_cast Int.lt_zpow_iff_log_lt one_lt_two hq

theorem two_zpow_le_iff {q : Rat} (hq : 0 < q) {k : Int} : 2 ^ k ≤ q ↔ k ≤ Int.log 2 q := by
  exact_mod_cast Int.zpow_le_iff_le_log one_lt_two hq

theorem two_zpow_pos (k : Int) : (0 : Rat) < 2 ^ k :=
  zpow_pos two_pos k

/-- The first digit of what is left of `q` when it is cut below `2 ^ exponent`. -/
theorem log_eq_of_floor {q : Rat} {mantissa : Nat} {exponent : Int} (hq : 0 < q)
    (hfloor : ⌊q / 2 ^ exponent⌋₊ = mantissa) (hpos : 0 < mantissa) :
    Int.log 2 q = mantissa.log2 + exponent := by
  have hpow := two_zpow_pos exponent
  have hlow : 2 ^ mantissa.log2 ≤ mantissa := Nat.log2_self_le hpos.ne'
  have hhigh : mantissa + 1 ≤ 2 ^ (mantissa.log2 + 1) := Nat.lt_log2_self
  rw [Nat.floor_eq_iff (by positivity), le_div_iff₀ hpow, div_lt_iff₀ hpow] at hfloor
  obtain ⟨hle, hlt⟩ := hfloor
  have hle' : (2 : Rat) ^ (mantissa.log2 + exponent) ≤ q := by
    rw [zpow_add₀ two_ne_zero, zpow_natCast]
    exact le_trans (mul_le_mul_of_nonneg_right (by exact_mod_cast hlow) hpow.le) hle
  have hlt' : q < (2 : Rat) ^ (mantissa.log2 + exponent + 1) := by
    rw [add_right_comm, zpow_add₀ two_ne_zero, ← Nat.cast_succ, zpow_natCast]
    exact lt_of_lt_of_le hlt (mul_le_mul_of_nonneg_right (by exact_mod_cast hhigh) hpow.le)
  rw [two_zpow_le_iff hq] at hle'
  rw [lt_two_zpow_iff hq] at hlt'
  omega

theorem targetExponent_binary64 (total : Int) :
    binary64.targetExponent total = max (total - 53) (-1074) := by
  simp [Format.targetExponent, Format.mantissaBits, Format.minExponent]

/-- The exponent that rounding aims at for what is left of `q` when it is cut below
`2 ^ exponent`. -/
theorem targetExponent_of_pos {q : Rat} {mantissa : Nat} {exponent : Int} (hq : 0 < q)
    (hfloor : ⌊q / 2 ^ exponent⌋₊ = mantissa) (hpos : 0 < mantissa) :
    binary64.targetExponent (totalExponent mantissa exponent) = lastBit q := by
  rw [targetExponent_binary64, totalExponent, lastBit, log_eq_of_floor hq hfloor hpos]
  congr 1
  ring

/-- The same when nothing may be left of `q`. -/
theorem targetExponent_of_floor {q : Rat} {mantissa : Nat} {exponent : Int} (hq : 0 < q)
    (hfloor : ⌊q / 2 ^ exponent⌋₊ = mantissa) (hle : exponent ≤ lastBit q) :
    binary64.targetExponent (totalExponent mantissa exponent) = lastBit q := by
  rcases Nat.eq_zero_or_pos mantissa with rfl | hpos
  · rw [Nat.floor_eq_zero, div_lt_one (two_zpow_pos exponent), lt_two_zpow_iff hq] at hfloor
    rw [targetExponent_binary64, totalExponent]
    simp only [lastBit, Nat.log2_zero] at hle ⊢
    omega
  · exact targetExponent_of_pos hq hfloor hpos

/-- **What represents `q` is rounded to the double nearest to `q`.** -/
theorem roundWithAccuracy_eq_nearest {s : Sign} {q : Rat} {mantissa : Nat} {exponent : Int}
    {accuracy : Accuracy} (hq : 0 < q)
    (h : Represents (.ofMantissaAndAccuracy mantissa accuracy) (q / 2 ^ exponent))
    (hle : exponent ≤ lastBit q) :
    roundWithAccuracy binary64 s mantissa exponent accuracy = nearest s q := by
  have hmantissa : (ExtendedMantissa.ofMantissaAndAccuracy mantissa accuracy).mantissa = mantissa := by
    cases accuracy with
    | exact => rfl
    | inexact o => cases o <;> rfl
  have htarget := targetExponent_of_floor hq (h.floor_eq.trans hmantissa) hle
  obtain ⟨n, hn⟩ : ∃ n : Nat, lastBit q = exponent + n := Int.le.dest hle |>.imp fun _ h => h.symm
  have hrounded : (ExtendedMantissa.ofMantissaAndAccuracy mantissa accuracy >>> n).roundedMantissa
      = halfEven (q / 2 ^ lastBit q) := by
    rw [(h.shiftRight n).roundedMantissa_eq, hn, zpow_add₀ two_ne_zero, zpow_natCast, div_div]
  have hshift : shiftToTargetExponent binary64 mantissa exponent accuracy
      = (ExtendedMantissa.ofMantissaAndAccuracy mantissa accuracy >>> n, lastBit q) := by
    rw [shiftToTargetExponent, htarget, shiftToExponent, hn]
    simp
  rw [roundWithAccuracy, hshift]
  simp only [hrounded]
  rfl

theorem mul_two_zpow_pos {m : Nat} (hm : 0 < m) (e : Int) : 0 < (m * 2 ^ e : Rat) :=
  mul_pos (by exact_mod_cast hm) (two_zpow_pos e)

theorem mul_two_zpow_div (m : Nat) (e : Int) : (m * 2 ^ e / 2 ^ e : Rat) = m :=
  mul_div_cancel_right₀ _ (two_zpow_pos e).ne'

theorem log_mul_two_zpow {m : Nat} (hm : 0 < m) (e : Int) :
    Int.log 2 (m * 2 ^ e : Rat) = m.log2 + e :=
  log_eq_of_floor (mul_two_zpow_pos hm e) (by rw [mul_two_zpow_div, Nat.floor_natCast]) hm

/-- A whole number of `2 ^ e` with enough digits is rounded to the nearest double. -/
theorem roundWithAccuracy_exact {s : Sign} {m : Nat} {e : Int} (hm : 0 < m)
    (hle : e ≤ lastBit (m * 2 ^ e)) :
    roundWithAccuracy binary64 s m e .exact = nearest s (m * 2 ^ e) := by
  refine roundWithAccuracy_eq_nearest (mul_two_zpow_pos hm e) ?_ hle
  rw [mul_two_zpow_div]
  exact .ofExact m

theorem round_eq_nearest (s : Sign) {m : Nat} (hm : 0 < m) (e : Int) :
    UnpackedFloat.round binary64 s m e = nearest s (m * 2 ^ e) := by
  have htarget : binary64.targetExponent (totalExponent m e) = lastBit (m * 2 ^ e) :=
    targetExponent_of_pos (mul_two_zpow_pos hm e) (by rw [mul_two_zpow_div, Nat.floor_natCast]) hm
  generalize hk : (e - lastBit (m * 2 ^ e)).toNat = k
  have hsame : ((m <<< k : Nat) * 2 ^ (e - k) : Rat) = m * 2 ^ e := by
    rw [Nat.shiftLeft_eq, zpow_sub₀ two_ne_zero, zpow_natCast]
    push_cast
    field_simp
  have hle : e - k ≤ lastBit ((m <<< k : Nat) * 2 ^ (e - k)) := by
    rw [hsame]
    omega
  rw [UnpackedFloat.round, htarget, decreaseExponent, hk, ← hsame]
  exact roundWithAccuracy_exact (by rw [Nat.shiftLeft_eq]; positivity) hle

/-- A product is rounded to the nearest double when its mantissa has enough digits. -/
theorem mul_eq_nearest {m₁ m₂ : Nat} (h₁ : 0 < m₁) (h₂ : 0 < m₂) (e₁ e₂ : Int)
    (hdigits : 2 ^ 52 ≤ m₁ * m₂) :
    UnpackedFloat.mul binary64 (.finite .positive m₁ e₁ h₁) (.finite .positive m₂ e₂ h₂)
      = nearest .positive ((m₁ * 2 ^ e₁) * (m₂ * 2 ^ e₂)) := by
  have hq : ((m₁ * m₂ : Nat) * 2 ^ (e₁ + e₂) : Rat) = (m₁ * 2 ^ e₁) * (m₂ * 2 ^ e₂) := by
    rw [zpow_add₀ two_ne_zero]
    push_cast
    ring
  have hpos : 0 < m₁ * m₂ := Nat.mul_pos h₁ h₂
  have hlog : 52 ≤ (m₁ * m₂).log2 := (Nat.le_log2 hpos.ne').mpr hdigits
  have hle : e₁ + e₂ ≤ lastBit ((m₁ * m₂ : Nat) * 2 ^ (e₁ + e₂)) := by
    rw [lastBit, log_mul_two_zpow hpos]
    omega
  rw [← hq]
  exact roundWithAccuracy_exact hpos hle

/-- A quotient is rounded to the nearest double. -/
theorem div_eq_nearest {m₁ m₂ : Nat} (h₁ : 0 < m₁) (h₂ : 0 < m₂) (e₁ e₂ : Int) :
    UnpackedFloat.div binary64 (.finite .positive m₁ e₁ h₁) (.finite .positive m₂ e₂ h₂)
      = nearest .positive ((m₁ * 2 ^ e₁) / (m₂ * 2 ^ e₂)) := by
  generalize hq : (m₁ * 2 ^ e₁ / (m₂ * 2 ^ e₂) : Rat) = q
  have hpos : 0 < q := hq ▸ div_pos (mul_two_zpow_pos h₁ e₁) (mul_two_zpow_pos h₂ e₂)
  generalize hlow : min (e₁ - e₂)
    (binary64.targetExponent (totalExponent m₁ e₁ - totalExponent m₂ e₂)) = low
  generalize hk : (e₁ - e₂ - low).toNat = k
  have hquotient : q / 2 ^ low = (m₁ <<< k : Nat) / m₂ := by
    have hsum : e₁ = low + k + e₂ := by omega
    rw [← hq, hsum, Nat.shiftLeft_eq, zpow_add₀ two_ne_zero, zpow_add₀ two_ne_zero, zpow_natCast]
    have := (two_zpow_pos low).ne'
    have := (two_zpow_pos e₂).ne'
    push_cast
    field_simp
  have hle : low ≤ lastBit q := by
    -- A quotient has at most one digit less than the difference of the lengths tells.
    have hlog : m₁.log2 + e₁ - (m₂.log2 + e₂) - 1 ≤ Int.log 2 q := by
      rw [← two_zpow_le_iff hpos, ← hq, le_div_iff₀ (mul_two_zpow_pos h₂ e₂)]
      have hm₂ := (lt_two_zpow_iff (mul_two_zpow_pos h₂ e₂)).mpr
        (lt_add_one (Int.log 2 (m₂ * 2 ^ e₂ : Rat)))
      have hm₁ := (two_zpow_le_iff (mul_two_zpow_pos h₁ e₁)).mpr
        (le_refl (Int.log 2 (m₁ * 2 ^ e₁ : Rat)))
      rw [log_mul_two_zpow h₂] at hm₂
      rw [log_mul_two_zpow h₁] at hm₁
      refine le_trans (mul_le_mul_of_nonneg_left hm₂.le (two_zpow_pos _).le) ?_
      rw [← zpow_add₀ two_ne_zero]
      exact le_trans (le_of_eq (by congr 1; ring)) hm₁
    rw [targetExponent_binary64] at hlow
    simp only [totalExponent] at hlow
    rw [lastBit]
    omega
  have hrepresents := Represents.ofFraction (m₁ <<< k) h₂
  rw [← hquotient] at hrepresents
  simp only [UnpackedFloat.div, divCore, hlow, hk]
  exact roundWithAccuracy_eq_nearest hpos hrepresents hle

/-! ## What is nearest -/

/-- Shifting a whole mantissa drops its last digits. -/
theorem mantissa_shiftRight (m k : Nat) :
    (ExtendedMantissa.ofMantissaAndAccuracy m .exact >>> k).mantissa = m / 2 ^ k := by
  rw [← ((Represents.ofExact m).shiftRight k).floor_eq]
  exact_mod_cast Nat.floor_div_eq_div (K := Rat) m (2 ^ k)

theorem settle_eq {s : Sign} {m k : Nat} {e : Int}
    (hk : k = (max (m.log2 + e - 52) (-1074) - e).toNat) (hpos : 0 < m / 2 ^ k) :
    settle s m e = .finite s (m / 2 ^ k) (e + k) hpos := by
  have htarget : binary64.targetExponent (totalExponent m e) = max (m.log2 + e - 52) (-1074) := by
    rw [targetExponent_binary64, totalExponent]
    congr 1
    ring
  have hshift : shiftToTargetExponent binary64 m e .exact
      = (ExtendedMantissa.ofMantissaAndAccuracy m .exact >>> k, e + k) := by
    rw [shiftToTargetExponent, htarget, shiftToExponent, ← hk]
  simp only [settle, hshift, mantissa_shiftRight, dif_neg hpos.ne']

/-- A mantissa that is not zero is settled to one that is not zero, with an exponent that is not
smaller. -/
theorem exists_settle (s : Sign) {m : Nat} (hm : 0 < m) {e : Int} (he : -1074 ≤ e) :
    ∃ m' e' h, settle s m e = .finite s m' e' h ∧ e ≤ e' := by
  have hpos : 0 < m / 2 ^ (max (m.log2 + e - 52) (-1074) - e).toNat := by
    refine Nat.div_pos ?_ (Nat.two_pow_pos _)
    refine le_trans (Nat.pow_le_pow_right two_pos ?_) (Nat.log2_self_le hm.ne')
    omega
  exact ⟨_, _, hpos, settle_eq rfl hpos, by omega⟩

/-- A double is what is nearest to its own value. -/
theorem Canonical.nearest {m : Nat} {e : Int} (h : Canonical m e) (s : Sign) :
    nearest s (m * 2 ^ e) = .finite s m e h.pos := by
  have hlog : m.log2 < 53 := (Nat.log2_lt h.pos.ne').mpr h.lt
  have hfull : m.log2 = 52 ∨ e = -1074 := by
    refine h.full.imp_left fun hle => ?_
    have := (Nat.le_log2 h.pos.ne').mpr hle
    omega
  have hlast : lastBit (m * 2 ^ e) = e := by
    rw [lastBit, log_mul_two_zpow h.pos]
    have := h.least
    omega
  have hzero : (max (m.log2 + e - 52) (-1074) - e).toNat = 0 := by
    have := h.least
    omega
  rw [Binary64.nearest, hlast, mul_two_zpow_div, halfEven_natCast]
  have hsettle := settle_eq (s := s) hzero.symm (by simpa using h.pos)
  rw [hsettle]
  simp

theorem nearest_zero (s : Sign) : nearest s 0 = .zero s := by
  have hlast : lastBit 0 = -52 := by
    rw [lastBit, Int.log_zero_right]
    rfl
  have hround : halfEven (0 / 2 ^ lastBit 0) = 0 := by
    simpa using halfEven_natCast 0
  rw [nearest, hround, hlast]
  rfl

theorem half_mul_two_zpow (k : Int) : (1 / 2 * 2 ^ k : Rat) = 2 ^ (k - 1) := by
  rw [zpow_sub_one₀ two_ne_zero]
  ring

/-- What is smaller than half of the least double is rounded to zero. -/
theorem nearest_of_tiny (s : Sign) {q : Rat} (hq : 0 < q) (hlt : q < 2 ^ (-1075 : Int)) :
    nearest s q = .zero s := by
  have hlast : lastBit q = -1074 := by
    rw [lt_two_zpow_iff hq] at hlt
    rw [lastBit]
    omega
  have hhalf : q / 2 ^ (-1074 : Int) < 1 / 2 := by
    have hstep : (-1075 : Int) = -1074 - 1 := rfl
    rw [hstep] at hlt
    rw [div_lt_iff₀ (two_zpow_pos _), half_mul_two_zpow]
    exact hlt
  have hround : halfEven (q / 2 ^ lastBit q) = 0 := by
    rw [hlast]
    exact halfEven_of_lt_half hhalf
  rw [nearest, hround, hlast]
  rfl

/-- What is far beyond the largest double is packed as infinity. -/
theorem pack_nearest_of_huge {q : Rat} (hle : 2 ^ (1100 : Int) ≤ q) :
    Float.Model.pack (nearest .positive q) = Float.Model.pack (.infinity .positive) := by
  have hq : 0 < q := lt_of_lt_of_le (two_zpow_pos _) hle
  have hlog : 1100 ≤ Int.log 2 q := (two_zpow_le_iff hq).mp hle
  have hlast : lastBit q = Int.log 2 q - 52 := by
    rw [lastBit]
    omega
  have hpos : 0 < halfEven (q / 2 ^ lastBit q) := by
    have hone : 1 ≤ q / 2 ^ lastBit q := by
      rw [one_le_div (two_zpow_pos _), two_zpow_le_iff hq, hlast]
      omega
    have hfloor : 1 ≤ ⌊q / 2 ^ lastBit q⌋₊ := Nat.one_le_floor_iff _ |>.mpr hone
    rw [halfEven]
    split <;> omega
  obtain ⟨m, e, hm, hsettle, he⟩ := exists_settle .positive hpos (e := lastBit q) (by omega)
  have hbias : e + (binary64.exponentBias : Int) + (binary64.mantissaBitsWithoutImplicit : Int)
      = e + 1075 := by
    simp only [Format.exponentBias]
    omega
  have hpack : pack binary64 (.finite .positive m e hm) = pack binary64 (.infinity .positive) := by
    unfold pack
    simp only [hbias]
    rw [if_pos (show 2 ^ 11 ≤ (e + 1075).toNat + 1 by omega)]
  rw [nearest, hsettle]
  simp only [Float.Model.pack, hpack]

/-- A whole number with few digits before its zeros, as powers of two go, is a double. -/
theorem exists_canonical {n k : Nat} (hpos : 0 < n) (hlt : n < 2 ^ 53) (hk : k ≤ 900) :
    ∃ m e, Canonical m e ∧ 2 ^ 52 ≤ m ∧ (m * 2 ^ e : Rat) = n * 2 ^ k := by
  have hlog : n.log2 < 53 := (Nat.log2_lt hpos.ne').mpr hlt
  have hlow : 2 ^ 52 ≤ n * 2 ^ (52 - n.log2) := by
    calc 2 ^ 52 = 2 ^ n.log2 * 2 ^ (52 - n.log2) := by rw [← pow_add]; congr 1; omega
      _ ≤ n * 2 ^ (52 - n.log2) := Nat.mul_le_mul_right _ (Nat.log2_self_le hpos.ne')
  have hhigh : n * 2 ^ (52 - n.log2) < 2 ^ 53 := by
    calc n * 2 ^ (52 - n.log2) < 2 ^ (n.log2 + 1) * 2 ^ (52 - n.log2) :=
          Nat.mul_lt_mul_of_pos_right Nat.lt_log2_self (Nat.two_pow_pos _)
      _ = 2 ^ 53 := by rw [← pow_add]; congr 1; omega
  refine ⟨n * 2 ^ (52 - n.log2), k - (52 - n.log2 : Nat), ⟨by omega, hhigh, .inl hlow, by omega, by omega⟩,
    hlow, ?_⟩
  rw [zpow_sub₀ two_ne_zero, zpow_natCast, zpow_natCast]
  push_cast
  field_simp

/-- Such a number survives packing. -/
theorem unpack_pack_nearest {n k : Nat} (hpos : 0 < n) (hlt : n < 2 ^ 53) (hk : k ≤ 900) :
    ∃ m e h, (Float.Model.pack (nearest .positive (n * 2 ^ k))).unpack = .finite .positive m e h ∧
      2 ^ 52 ≤ m ∧ (m * 2 ^ e : Rat) = n * 2 ^ k := by
  obtain ⟨m, e, hcanonical, hle, heq⟩ := exists_canonical hpos hlt hk
  refine ⟨m, e, hcanonical.pos, ?_, hle, heq⟩
  rw [← heq, hcanonical.nearest, unpack_pack hcanonical]

/-- What is neither small nor large is rounded to a finite double. -/
theorem canonical_of_nearest {q : Rat} (hone : 1 ≤ q) (hlt : q < 2 ^ (1000 : Int)) (s : Sign) :
    ∃ m e h, nearest s q = .finite s m e h ∧ Canonical m e := by
  have hq : 0 < q := lt_of_lt_of_le one_pos hone
  have hlog : 0 ≤ Int.log 2 q := (two_zpow_le_iff hq).mp (by simpa using hone)
  rw [lt_two_zpow_iff hq] at hlt
  have hlast : lastBit q = Int.log 2 q - 52 := by
    rw [lastBit]
    omega
  have hquotient : 0 ≤ q / 2 ^ lastBit q := (div_pos hq (two_zpow_pos _)).le
  have hlow : 2 ^ 52 ≤ ⌊q / 2 ^ lastBit q⌋₊ := by
    rw [Nat.le_floor_iff hquotient, le_div_iff₀ (two_zpow_pos _), Nat.cast_pow, Nat.cast_ofNat, ← zpow_natCast,
      ← zpow_add₀ two_ne_zero, two_zpow_le_iff hq, hlast]
    omega
  have hhigh : ⌊q / 2 ^ lastBit q⌋₊ < 2 ^ 53 := by
    rw [Nat.floor_lt hquotient, div_lt_iff₀ (two_zpow_pos _), Nat.cast_pow, Nat.cast_ofNat, ← zpow_natCast,
      ← zpow_add₀ two_ne_zero, lt_two_zpow_iff hq, hlast]
    omega
  rw [nearest]
  generalize hm : halfEven (q / 2 ^ lastBit q) = m
  have hmem := halfEven_mem (q / 2 ^ lastBit q)
  rw [hm] at hmem
  by_cases hcarry : m = 2 ^ 53
  · -- The mantissa has been rounded up to one more digit.
    have hlen : m.log2 = 53 := by rw [hcarry, Nat.log2_two_pow]
    have hk : 1 = (max (m.log2 + lastBit q - 52) (-1074) - lastBit q).toNat := by omega
    have hhalf : m / 2 ^ 1 = 2 ^ 52 := by rw [hcarry]; rfl
    refine ⟨_, _, _, settle_eq hk (by rw [hhalf]; exact Nat.two_pow_pos 52), ?_⟩
    rw [hhalf]
    exact ⟨Nat.two_pow_pos 52, by omega, .inl le_rfl, by omega, by omega⟩
  · have hlen : m.log2 = 52 := by
      rw [Nat.log2_eq_iff (by omega)]
      omega
    have hk : 0 = (max (m.log2 + lastBit q - 52) (-1074) - lastBit q).toNat := by omega
    refine ⟨_, _, _, settle_eq hk (by omega), ?_⟩
    exact ⟨by omega, by omega, .inl (by omega), by omega, by omega⟩

end Dataflow.Binary64
