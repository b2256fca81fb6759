import PluralForms.Proofs.Binary.Whole
import PluralForms.Proofs.Numeral.DecimalText
import PluralForms.Proofs.Sample.Tokens

/-!
# Samples are written in digits

A sample that is a number was divided by a power of ten in double precision, and for many places the
power is infinite. But the power is never below one and the dividend fits a word, so the quotient is
finite and not negative, whatever the places, and it is written in digits:

    exists_render_ofScaled : (ofScaled scaled places).render is some decimal fraction

A compact numeral is written as its token. So of the samples that a token stands for, it is known
what they look like:

    mem_expandToken : a sample of a token is a number of so many places, or the token itself
-/

namespace PluralForms

namespace Binary.Double

/-! ### Quotients by great numbers -/

/-- One or more, perhaps infinite. -/
inductive AtLeastOne : Double → Prop
  | infinite : AtLeastOne (.infinite false)
  | finite {units exact} : one ≤ units → AtLeastOne (.finite false units exact)

variable {x y : Double} {num den k : Nat}

theorem atLeastOne_ofUnits (h : one ≤ num / den) : AtLeastOne (ofUnits false num den) := by
  have hone : Format.double.step one ∣ one := by
    have hstep := step_dvd_mul_one (k := 1) (by decide)
    rwa [Nat.one_mul] at hstep
  rcases ofUnits_eq_or false num den with hinf | ⟨exact, hfin⟩
  · rw [hinf]
    exact .infinite
  · rw [hfin]
    exact .finite (Format.le_round (by decide) hone h)

theorem atLeastOne_ofNat {n : Nat} (h : 0 < n) : AtLeastOne (ofNat n) := by
  show AtLeastOne (ofUnits false (n * one) 1)
  apply atLeastOne_ofUnits
  rw [Nat.div_one]
  exact Nat.le_mul_of_pos_left one h

theorem AtLeastOne.mul (hx : AtLeastOne x) (hy : AtLeastOne y) : AtLeastOne (x.mul y) := by
  cases hx with
  | infinite =>
    cases hy with
    | infinite => exact .infinite
    | finite hv =>
      have hne : _ ≠ 0 := Nat.ne_of_gt (Nat.lt_of_lt_of_le one_pos hv)
      unfold Double.mul
      dsimp only
      rw [if_neg hne]
      exact .infinite
  | finite hu =>
    cases hy with
    | infinite =>
      have hne : _ ≠ 0 := Nat.ne_of_gt (Nat.lt_of_lt_of_le one_pos hu)
      unfold Double.mul
      dsimp only
      rw [if_neg hne]
      exact .infinite
    | finite hv =>
      apply atLeastOne_ofUnits
      rw [Nat.le_div_iff_mul_le one_pos]
      exact Nat.mul_le_mul hu hv

theorem AtLeastOne.powBySquaring {base acc : Double} (hbase : AtLeastOne base)
    (hacc : AtLeastOne acc) (d : Nat) : AtLeastOne (powBySquaring base acc d) := by
  induction d using Nat.strongRecOn generalizing base acc with
  | ind d ih =>
    have hnext : AtLeastOne (if d % 2 = 1 then acc.mul base else acc) := by
      split
      · exact hacc.mul hbase
      · exact hacc
    rw [Double.powBySquaring]
    split
    · exact hnext
    · exact ih (d / 2) (by omega) (hbase.mul hbase) hnext

theorem exists_ofUnits (hk : Format.double.precision ≤ k) (hrange : k < Format.double.range)
    (h : num / den < 2 ^ k) :
    ∃ units exact, ofUnits false num den = .finite false units exact ∧ units ≤ 2 ^ k := by
  have hle : Format.double.round num den ≤ 2 ^ k := Format.round_le_two_pow (by decide) hk h
  have hlt : 2 ^ k < 2 ^ Format.double.range := Nat.pow_lt_pow_right (by decide) hrange
  obtain ⟨exact, hfin⟩ := ofUnits_of_lt false (Nat.lt_of_le_of_lt hle hlt)
  exact ⟨_, exact, hfin, hle⟩

/-- How many bits a word has, counted in units. -/
def wordBits : Nat := 64 + 1074

theorem exists_ofNat {n : Nat} (h : n ≤ maxWord) :
    ∃ units exact, ofNat n = .finite false units exact ∧ units ≤ 2 ^ wordBits := by
  have hword : n < 2 ^ (64 : Nat) := Nat.lt_of_le_of_lt h (by decide)
  have hlt : n * one / 1 < 2 ^ wordBits := by
    rw [Nat.div_one]
    unfold one wordBits
    generalize 1074 = e
    rw [Nat.pow_add]
    exact Nat.mul_lt_mul_of_pos_right hword (Nat.two_pow_pos e)
  unfold ofNat nearest
  exact exists_ofUnits (by decide) (by decide) hlt

/-- A number that fits a word, divided by one or more, is finite and not negative. -/
theorem exists_div {n : Nat} (h : n ≤ maxWord) (hy : AtLeastOne y) :
    ∃ units exact, (ofNat n).div y = .finite false units exact := by
  obtain ⟨units, exact, hfin, hunits⟩ := exists_ofNat h
  rw [hfin]
  cases hy with
  | infinite =>
    have hzero : 0 / 1 < 2 ^ (64 : Nat) := by decide
    obtain ⟨quotient, hquotient, heq, -⟩ := exists_ofUnits (by decide) (by decide) hzero
    exact ⟨quotient, hquotient, heq⟩
  | @finite divisor _ hdivisor =>
    have hpos : 0 < divisor := Nat.lt_of_lt_of_le one_pos hdivisor
    have hle : units * one / divisor ≤ units := by
      apply Nat.div_le_of_le_mul
      rw [Nat.mul_comm divisor]
      exact Nat.mul_le_mul_left units hdivisor
    have hlt : units * one / divisor < 2 ^ (wordBits + 1) :=
      Nat.lt_of_le_of_lt (Nat.le_trans hle hunits)
        (Nat.pow_lt_pow_right (by decide) (Nat.lt_succ_self wordBits))
    obtain ⟨quotient, hquotient, heq, -⟩ := exists_ofUnits (by decide) (by decide) hlt
    unfold Double.div
    dsimp only
    rw [if_neg (Nat.ne_of_gt hpos)]
    exact ⟨quotient, hquotient, heq⟩

end Binary.Double

open Binary

namespace Sample

variable {scaled places : Nat}

theorem exists_render_ofScaled (h : scaled ≤ maxWord) (places : Nat) :
    ∃ n, (ofScaled scaled places).render = String.ofList (Numeral.decimalText n places) := by
  have hpow : Double.AtLeastOne (Double.pow (Double.ofNat 10) places) :=
    (Double.atLeastOne_ofNat (by decide)).powBySquaring (Double.atLeastOne_ofNat (by decide)) places
  obtain ⟨units, exact, hvalue⟩ := Double.exists_div h hpow
  unfold ofScaled render
  dsimp only
  rw [hvalue, Double.fixed_eq]
  exact ⟨_, rfl⟩

end Sample

/-! ### What a token stands for -/

variable {token start stop : List Char} {least places scaled : Nat} {sample : Sample}
  {e : Expansion}

theorem le_maxWord_of_scaledValue (h : scaledValue token places = some scaled) :
    scaled ≤ maxWord := by
  unfold scaledValue at h
  dsimp only at h
  split at h
  · split at h
    · next hfits =>
      cases h
      exact hfits
    · cases h
  · cases h

/-- The sample is a number that was divided by a power of ten. -/
def Sample.IsScaled (sample : Sample) : Prop :=
  ∃ scaled places, scaled ≤ maxWord ∧ sample = Sample.ofScaled scaled places

theorem isScaled_of_mem_rangeSamples {first last : Nat} (horder : first ≤ last)
    (hlast : last ≤ maxWord) (h : sample ∈ rangeSamples first last places) :
    sample.IsScaled := by
  obtain ⟨k, hk, rfl⟩ := List.mem_map.1 h
  have hcount := List.mem_range.1 hk
  exact ⟨first + k, places, by omega, rfl⟩

theorem isScaled_of_mem_expandRange (he : expandRange start stop least = some e)
    (h : sample ∈ e.samples) : sample.IsScaled := by
  unfold expandRange at he
  dsimp only at he
  split at he
  · next first last hfirst hlast =>
    have hfits : last ≤ maxWord := le_maxWord_of_scaledValue hlast
    split at he
    · cases he
      exact absurd h List.not_mem_nil
    · next horder =>
      split at he <;> cases he <;>
        exact isScaled_of_mem_rangeSamples (Nat.le_of_not_lt horder) hfits h
  · cases he

theorem isScaled_of_mem_expandNumeral (he : expandNumeral token least = some e)
    (h : sample ∈ e.samples) : sample.IsScaled := by
  unfold expandNumeral at he
  obtain ⟨scaled, hscaled, rfl⟩ := Option.map_eq_some_iff.1 he
  obtain rfl := List.mem_singleton.1 h
  exact ⟨scaled, _, le_maxWord_of_scaledValue hscaled, rfl⟩

theorem mem_expandToken (h : sample ∈ (expandToken least token).samples) :
    sample.IsScaled ∨ sample = .compact (String.ofList token) := by
  unfold expandToken at h
  split at h
  · exact absurd h List.not_mem_nil
  split at h
  · exact Or.inr (List.mem_singleton.1 h)
  · left
    dsimp only at h
    split at h
    · next start stop _ =>
      cases he : expandRange (Text.trim start) (Text.trim stop) least with
      | none =>
        rw [he] at h
        exact absurd h List.not_mem_nil
      | some e =>
        rw [he] at h
        exact isScaled_of_mem_expandRange he h
    · cases he : expandNumeral token least with
      | none =>
        rw [he] at h
        exact absurd h List.not_mem_nil
      | some e =>
        rw [he] at h
        exact isScaled_of_mem_expandNumeral he h

end PluralForms
