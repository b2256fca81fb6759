import PluralForms.Power

/-!
# Rounding to a binary format

A finite number of a binary floating-point format is a whole multiple of the least positive one.
So a magnitude is a natural number, its count of these *units*, and what singles the format's
numbers out is that the count has few significant bits.

* `Format.step` - the distance between neighbouring numbers of the format at a given magnitude;
* `Format.round` - the number of the format nearest to a quotient of units, of two equally near
  ones the one whose count of steps is even;
* `Format.step_round_dvd` - what `round` gives is a number of the format.
-/

namespace PluralForms.Binary

/-- The quotient `num / den`, rounded to the nearest natural number, of two equally near ones to
the even one. -/
def roundDiv (num den : Nat) : Nat :=
  let whole := num / den
  let twice := 2 * (num % den)
  if twice < den then whole
  else if den < twice then whole + 1
  else whole + whole % 2

/-- A binary floating-point format. -/
structure Format where
  /-- How many significant bits a number has at most. -/
  precision : Nat
  /-- The unit, the least positive number of the format, is `2 ^ (-scale)`. -/
  scale : Nat
  /-- Finite magnitudes are below `2 ^ range` units. -/
  range : Nat

/-- Double precision. -/
def Format.double : Format := ⟨53, 1074, 2098⟩

/-- Single precision. -/
def Format.single : Format := ⟨24, 149, 277⟩

namespace Format

variable (fmt : Format)

/-- The binary exponent of the distance between numbers of the format about `units`. -/
def stepExponent (units : Nat) : Nat := units.log2 + 1 - fmt.precision

/-- The distance between neighbouring numbers of the format about `units`. -/
def step (units : Nat) : Nat := 2 ^ fmt.stepExponent units

/-- The multiple of the unit nearest to `num / den` that has no more than the format's
significant bits. -/
def round (num den : Nat) : Nat :=
  let spacing := fmt.step (num / den)
  roundDiv num (den * spacing) * spacing

/-- Is `units` the count of a finite number of the format? -/
def Represents (units : Nat) : Prop := fmt.step units ∣ units ∧ units < 2 ^ fmt.range

instance (units : Nat) : Decidable (fmt.Represents units) := by
  unfold Represents
  infer_instance

/-- The magnitude written by an exponent field and a fraction field. -/
def unitsOfFields (exponent fraction : Nat) : Nat :=
  if exponent = 0 then fraction
  else (2 ^ (fmt.precision - 1) + fraction) * 2 ^ (exponent - 1)

end Format

/-! ### Rounding stays in the format -/

theorem roundDiv_le {num den bound : Nat} (h : num / den < bound) : roundDiv num den ≤ bound := by
  simp only [roundDiv]
  split
  · omega
  · split <;> omega

/-- A count of no more than `precision` bits, shifted, is a count of the format. -/
theorem Format.step_dvd_mul_pow {fmt : Format} (hp : 0 < fmt.precision) {m e : Nat}
    (hm : m ≤ 2 ^ fmt.precision) : fmt.step (m * 2 ^ e) ∣ m * 2 ^ e := by
  rcases Nat.eq_zero_or_pos m with rfl | hpos
  · simp
  rcases Nat.lt_or_eq_of_le hm with hlt | rfl
  · have hne : m * 2 ^ e ≠ 0 := Nat.mul_ne_zero (by omega) (Nat.ne_of_gt (Nat.two_pow_pos e))
    have hlog : (m * 2 ^ e).log2 < fmt.precision + e := by
      rw [Nat.log2_lt hne, Nat.pow_add]
      exact Nat.mul_lt_mul_of_pos_right hlt (Nat.two_pow_pos e)
    have hexp : fmt.stepExponent (m * 2 ^ e) ≤ e := by
      unfold stepExponent
      omega
    exact Nat.dvd_trans (Nat.pow_dvd_pow 2 hexp) (Nat.dvd_mul_left _ _)
  · rw [← Nat.pow_add]
    have hexp : fmt.stepExponent (2 ^ (fmt.precision + e)) ≤ fmt.precision + e := by
      unfold stepExponent
      rw [Nat.log2_two_pow]
      omega
    exact Nat.pow_dvd_pow 2 hexp

theorem Format.step_round_dvd {fmt : Format} (hp : 0 < fmt.precision) (num den : Nat) :
    fmt.step (fmt.round num den) ∣ fmt.round num den := by
  unfold Format.round
  refine Format.step_dvd_mul_pow hp (roundDiv_le ?_)
  rw [← Nat.div_div_eq_div_mul, Format.step,
    Nat.div_lt_iff_lt_mul (Nat.two_pow_pos _), ← Nat.pow_add]
  refine Nat.lt_of_lt_of_le Nat.lt_log2_self (Nat.pow_le_pow_right (by decide) ?_)
  unfold Format.stepExponent
  omega

end PluralForms.Binary
