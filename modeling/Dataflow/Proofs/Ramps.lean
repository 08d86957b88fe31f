import Mathlib.Algebra.Order.Field.Rat
import Mathlib.Algebra.Order.Group.Unbundled.Abs
import Mathlib.Tactic.Linarith
import Mathlib.Tactic.NormNum
import Dataflow.Operator.Transform
/-!
# Where a ramp steps

A ramp is to move from a finite value before it toward its input. Read exactly, one step has three
cases (`rampFrom_rise`, `rampFrom_fall`, `rampFrom_gentle`). The tenth that a step adds or takes away
keeps the sign of the number that it is a tenth of, so below zero a step goes the other way; and a rise
that is only just steep adds more than there is left to go. Main statement: elsewhere a step ends
between the value and the input (`ramp_between_iff`).
-/
set_option autoImplicit false

namespace Dataflow.Transform

/-- The number `y` is one of `a` and `b` or lies between them, whichever of the two is larger. -/
def Between {α : Type} [LE α] (a b y : α) : Prop :=
  (a ≤ y ∧ y ≤ b) ∨ (b ≤ y ∧ y ≤ a)

variable {p x : ℚ}

/-! ## The three cases of a step -/

theorem rampFrom_eq (p x : ℚ) :
    rampFrom abs p x = if 1 / 10 * p < |x - p| then
      if p < x then p + x * (1 / 10) else if x < p then p - p * (1 / 10) else x
    else x := by
  unfold rampFrom
  norm_num

theorem rampFrom_rise (hrise : p < x) (hsteep : 1 / 10 * p < x - p) :
    rampFrom abs p x = p + x * (1 / 10) := by
  rw [rampFrom_eq, abs_of_pos (sub_pos.mpr hrise), if_pos hsteep, if_pos hrise]

theorem rampFrom_fall (hfall : x < p) (hsteep : 1 / 10 * p < p - x) :
    rampFrom abs p x = p - p * (1 / 10) := by
  rw [rampFrom_eq, abs_sub_comm, abs_of_pos (sub_pos.mpr hfall), if_pos hsteep,
    if_neg hfall.not_gt, if_pos hfall]

/-- A change that is not steep is made at once, and so is none. -/
theorem rampFrom_gentle (hgentle : |x - p| ≤ 1 / 10 * p ∨ x = p) : rampFrom abs p x = x := by
  rw [rampFrom_eq]
  rcases hgentle with hle | rfl
  · rw [if_neg hle.not_gt]
  · rw [if_neg (lt_irrefl x), if_neg (lt_irrefl x), ite_self]

/-! ## Steps that stay between -/

/-- A steep rise stays below the input when the value and a tenth of the input are at most the input. -/
theorem between_of_rise (hrise : p < x) (hsteep : 1 / 10 * p < x - p) :
    Between p x (rampFrom abs p x) ↔ 0 ≤ x ∧ 10 / 9 * p ≤ x := by
  rw [rampFrom_rise hrise hsteep, Between]
  constructor
  · rintro (⟨hlow, hhigh⟩ | ⟨hlow, hhigh⟩)
    · constructor <;> linarith
    · constructor <;> linarith
  · rintro ⟨hx, hp⟩
    left
    constructor <;> linarith

theorem between_of_fall (hfall : x < p) (hsteep : 1 / 10 * p < p - x) :
    Between p x (rampFrom abs p x) ↔ 0 ≤ p := by
  rw [rampFrom_fall hfall hsteep, Between]
  constructor
  · rintro (⟨hlow, hhigh⟩ | ⟨hlow, hhigh⟩) <;> linarith
  · intro hp
    right
    constructor <;> linarith

theorem between_of_gentle (hgentle : |x - p| ≤ 1 / 10 * p ∨ x = p) :
    Between p x (rampFrom abs p x) := by
  rw [rampFrom_gentle hgentle, Between]
  rcases le_total p x with h | h
  · exact .inl ⟨h, le_rfl⟩
  · exact .inr ⟨le_rfl, h⟩

/-- **When a step ends between the value and the input.** -/
theorem between_rampFrom_iff (p x : ℚ) :
    Between p x (rampFrom abs p x) ↔
      (0 ≤ p ∨ 0 ≤ x ∨ x = p) ∧ (x ≤ 11 / 10 * p ∨ 10 / 9 * p ≤ x) := by
  rcases lt_trichotomy x p with hfall | rfl | hrise
  · by_cases hsteep : 1 / 10 * p < p - x
    · rw [between_of_fall hfall hsteep]
      constructor
      · intro hp
        exact ⟨.inl hp, .inl (by linarith)⟩
      · rintro ⟨hp | hx | rfl, -⟩
        · exact hp
        · exact hx.trans hfall.le
        · exact absurd hfall (lt_irrefl x)
    · have hgentle : |x - p| ≤ 1 / 10 * p := by
        rw [abs_sub_comm, abs_of_pos (sub_pos.mpr hfall)]
        exact not_lt.mp hsteep
      have hp : 0 < p := by linarith
      exact iff_of_true (between_of_gentle (.inl hgentle)) ⟨.inl hp.le, .inl (by linarith)⟩
  · refine iff_of_true (between_of_gentle (.inr rfl)) ⟨.inr (.inr rfl), ?_⟩
    rcases le_total 0 x with hx | hx
    · exact .inl (by linarith)
    · exact .inr (by linarith)
  · by_cases hsteep : 1 / 10 * p < x - p
    · rw [between_of_rise hrise hsteep]
      constructor
      · rintro ⟨hx, hfar⟩
        exact ⟨.inr (.inl hx), .inr hfar⟩
      · rintro ⟨hsign, hnear | hfar⟩
        · exact absurd hsteep (by linarith)
        · refine ⟨?_, hfar⟩
          rcases hsign with hp | hx | rfl
          · exact hp.trans hrise.le
          · exact hx
          · exact absurd hrise (lt_irrefl x)
    · have hgentle : |x - p| ≤ 1 / 10 * p := by
        rw [abs_of_pos (sub_pos.mpr hrise)]
        exact not_lt.mp hsteep
      have hp : 0 < p := by linarith
      exact iff_of_true (between_of_gentle (.inl hgentle)) ⟨.inl hp.le, .inl (by linarith)⟩

/-! ## Steps that leave -/

/-- Below zero every change is steep, and its step goes away from the input. -/
theorem rampFrom_lt_of_rise (hx : x < 0) (hrise : p < x) : rampFrom abs p x < p := by
  rw [rampFrom_rise hrise (by linarith)]
  linarith

theorem lt_rampFrom_of_fall (hp : p < 0) (hfall : x < p) : p < rampFrom abs p x := by
  rw [rampFrom_fall hfall (by linarith)]
  linarith

/-- A rise by more than a tenth and less than a ninth of the value goes past the input. -/
theorem lt_rampFrom_of_near (hfar : 11 / 10 * p < x) (hnear : x < 10 / 9 * p) :
    x < rampFrom abs p x := by
  have hrise : p < x := by linarith
  rw [rampFrom_rise hrise (by linarith)]
  linarith

/-- **Where a ramp steps.** The ramp of a node steps from a finite value as `rampFrom` says. Read
exactly, a step ends between the value and the input if and only if one of them is not below zero, or
they are the same, and the input is not larger than the value by more than a tenth and less than a ninth
of it. Below zero the step goes away from the input; in the gap it goes past the input. -/
theorem ramp_between_iff (p x : ℚ) :
    (∀ input previous : Float, previous.isFinite →
      ramp.apply input (some previous) = rampFrom Float.abs previous input) ∧
    (Between p x (rampFrom abs p x) ↔
      (0 ≤ p ∨ 0 ≤ x ∨ x = p) ∧ (x ≤ 11 / 10 * p ∨ 10 / 9 * p ≤ x)) ∧
    (p < 0 → x < 0 → (p < x → rampFrom abs p x < p) ∧ (x < p → p < rampFrom abs p x)) ∧
    (11 / 10 * p < x → x < 10 / 9 * p → x < rampFrom abs p x) := by
  refine ⟨?_, between_rampFrom_iff p x, fun hp hx => ⟨?_, ?_⟩, lt_rampFrom_of_near⟩
  · intro input previous hfinite
    rw [apply, rampStep, if_pos hfinite]
  · exact rampFrom_lt_of_rise hx
  · exact lt_rampFrom_of_fall hp

/-- From 10 a ramp steps to 15 when the input is 50, and past 11.05; from -10 it steps below -10 when
the input is -5. -/
theorem ramp_steps :
    ramp.apply 50.0 (some 10.0) = rampFrom Float.abs 10.0 50.0 ∧
    Between (10 : ℚ) 50 (rampFrom abs 10 50) ∧
    (221 / 20 : ℚ) < rampFrom abs 10 (221 / 20) ∧ rampFrom abs (-10 : ℚ) (-5) < -10 := by
  obtain ⟨hstep, hbetween, -, -⟩ := ramp_between_iff 10 50
  obtain ⟨-, -, -, hpast⟩ := ramp_between_iff 10 (221 / 20)
  obtain ⟨-, -, haway, -⟩ := ramp_between_iff (-10) (-5)
  refine ⟨hstep 50.0 10.0 (by decide), hbetween.mpr ?_, ?_, ?_⟩
  · constructor
    · exact .inl (by norm_num)
    · exact .inr (by norm_num)
  · exact hpast (by norm_num) (by norm_num)
  · exact (haway (by norm_num) (by norm_num)).1 (by norm_num)

/-- A ramp between finite floats moves away from its input, and past it. -/
theorem ramp_leaves :
    (-5.0 : Float).isFinite ∧ (-10.0 : Float).isFinite ∧
      ramp.apply (-5.0) (some (-10.0)) = -10.5 ∧
      ¬ Between (-10.0) (-5.0) (ramp.apply (-5.0) (some (-10.0))) ∧
    (11.05 : Float).isFinite ∧ (10.0 : Float).isFinite ∧
      ¬ Between 10.0 11.05 (ramp.apply 11.05 (some 10.0)) := by
  refine ⟨by decide, by decide, by rfl, ?_, by decide, by decide, ?_⟩
  · unfold Between
    decide
  · unfold Between
    decide

end Dataflow.Transform
