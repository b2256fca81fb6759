import PluralForms.Proofs.Binary.Whole

/-!
# Powers of ten in double precision

A power of ten has the bits of the same power of five and zeros behind them, so it is a number of
the format as long as the power of five fits the significant bits. That is so up to `10 ^ 22`: these
powers are exact, products of them are exact, and so is the power that is computed by squaring.

    pow_ten : pow (ofNat 10) d = ofNat (10 ^ d)
    div_ten_pow : k ≤ wholeBound → div (ofNat k) (ofNat (10 ^ d)) = nearest k (10 ^ d)
-/

namespace PluralForms.Binary.Double

/-- The greatest exponent of a power of ten that is a number of the format, as are all below. -/
def tenBound : Nat := 22

variable {d : Nat}

theorem ten_pow_eq (d : Nat) : 10 ^ d * one = 5 ^ d * 2 ^ (d + 1074) := by
  unfold one
  generalize 1074 = e
  rw [Nat.pow_add, ← Nat.mul_assoc, ← Nat.mul_pow]

theorem represents_ten_pow (h : d ≤ tenBound) : Format.double.Represents (10 ^ d * one) := by
  constructor
  · have hbits : 5 ^ d ≤ 2 ^ Format.double.precision :=
      Nat.le_trans (Nat.pow_le_pow_right (by decide) h) (by decide : 5 ^ tenBound ≤ _)
    rw [ten_pow_eq]
    generalize d + 1074 = e
    exact Format.step_dvd_mul_pow (by decide) hbits
  · have hle : 10 ^ d ≤ 2 ^ (74 : Nat) :=
      Nat.le_trans (Nat.pow_le_pow_right (by decide) h) (by decide : 10 ^ tenBound ≤ 2 ^ (74 : Nat))
    have hrange : 74 + 1074 < Format.double.range := by decide
    refine Nat.lt_of_le_of_lt (Nat.mul_le_mul_right one hle) ?_
    unfold one
    generalize 1074 = e at hrange ⊢
    rw [← Nat.pow_add]
    exact Nat.pow_lt_pow_right (by decide) hrange

theorem ofNat_ten_pow (h : d ≤ tenBound) :
    ofNat (10 ^ d) = .finite false (10 ^ d * one) (represents_ten_pow h) :=
  ofUnits_of_represents false (represents_ten_pow h)

/-! ### Products -/

theorem mul_ten_pow {a b : Nat} (h : a + b ≤ tenBound) :
    mul (ofNat (10 ^ a)) (ofNat (10 ^ b)) = ofNat (10 ^ (a + b)) := by
  have hunits : 10 ^ a * one * (10 ^ b * one) = 10 ^ (a + b) * one * one := by
    rw [Nat.pow_add, Nat.mul_mul_mul_comm, Nat.mul_assoc (10 ^ a * 10 ^ b)]
  have hcancel := ofUnits_mul_right false (10 ^ (a + b) * one) 1 one_pos
  rw [Nat.one_mul] at hcancel
  rw [ofNat_ten_pow (Nat.le_trans (Nat.le_add_right a b) h),
    ofNat_ten_pow (Nat.le_trans (Nat.le_add_left b a) h)]
  unfold mul
  dsimp only
  rw [hunits]
  exact hcancel

/-- What is multiplied so far, and what is left to multiply, make up the power. -/
theorem powBySquaring_ten {a b : Nat} (h : a + b * d ≤ tenBound) :
    powBySquaring (ofNat (10 ^ b)) (ofNat (10 ^ a)) d = ofNat (10 ^ (a + b * d)) := by
  induction d using Nat.strongRecOn generalizing a b with
  | ind d ih =>
    -- the lowest bit of the exponent is taken off, and the base is squared for the other bits
    have hsplit : b * d = (b + b) * (d / 2) + b * (d % 2) := by
      rw [← Nat.two_mul, Nat.mul_comm 2 b, Nat.mul_assoc, ← Nat.mul_add, Nat.div_add_mod]
    obtain ⟨a', hacc, htotal⟩ : ∃ a', (if d % 2 = 1 then mul (ofNat (10 ^ a)) (ofNat (10 ^ b))
        else ofNat (10 ^ a)) = ofNat (10 ^ a') ∧ a + b * d = a' + (b + b) * (d / 2) := by
      split
      · next hodd =>
        rw [hodd, Nat.mul_one] at hsplit
        exact ⟨a + b, mul_ten_pow (by omega), by omega⟩
      · next heven =>
        rw [show d % 2 = 0 from by omega, Nat.mul_zero] at hsplit
        exact ⟨a, rfl, by omega⟩
    rw [powBySquaring, hacc, htotal]
    split
    · next hzero => rw [hzero, Nat.mul_zero, Nat.add_zero]
    · next hmore =>
      -- the square is needed, so it is no greater than the power
      have hsquare : b + b ≤ (b + b) * (d / 2) :=
        Nat.le_mul_of_pos_right _ (Nat.pos_of_ne_zero hmore)
      rw [mul_ten_pow (by omega)]
      exact ih (d / 2) (by omega) (htotal ▸ h)

theorem pow_ten (h : d ≤ tenBound) : pow (ofNat 10) d = ofNat (10 ^ d) := by
  have hpower : powBySquaring (ofNat (10 ^ 1)) (ofNat (10 ^ 0)) d = ofNat (10 ^ (0 + 1 * d)) :=
    powBySquaring_ten (by omega)
  rw [Nat.zero_add, Nat.one_mul] at hpower
  exact hpower

/-! ### Quotients -/

theorem div_ten_pow {k : Nat} (hk : k ≤ wholeBound) (hd : d ≤ tenBound) :
    div (ofNat k) (ofNat (10 ^ d)) = nearest k (10 ^ d) := by
  have hne : 10 ^ d * one ≠ 0 :=
    Nat.ne_of_gt (Nat.mul_pos (Nat.pow_pos (by decide)) one_pos)
  rw [ofNat_eq hk, ofNat_ten_pow hd]
  unfold div
  dsimp only
  rw [if_neg hne]
  exact ofUnits_mul_right false (k * one) (10 ^ d) one_pos

end PluralForms.Binary.Double
