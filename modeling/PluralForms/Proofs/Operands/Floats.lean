import PluralForms.Proofs.Binary.Fractions
import PluralForms.Proofs.Numeral.Plain

/-!
# Floating-point values have operands

A floating-point value counts as its shortest decimal, so it goes through the reader of numerals,
which may refuse what it is given. It refuses no finite value. All decimals that round to a positive
number are positive themselves, so the shortest has digits; and digits, with zeros and a point set
among them, are a plain numeral:

    exists_ofDouble     : x.isFinite = true → ∃ o, Operands.ofDouble x = .ok o
    exists_ofSingleBits : the same of the single-precision value in a word
-/

namespace PluralForms

open Binary

namespace Binary

variable {fmt : Format} {units : Nat}

/-! ### The neighbourhood of a positive number -/

theorem Format.step_le (hp : 0 < fmt.precision) (h : 0 < units) : fmt.step units ≤ units := by
  have hpow : 0 < 2 ^ (fmt.precision - 1) := Nat.two_pow_pos _
  apply Nat.le_of_mul_le_mul_right _ hpow
  apply Nat.le_trans (Format.step_mul_le hp units)
  exact Nat.max_le.2 ⟨Nat.le_mul_of_pos_right units hpow, Nat.le_mul_of_pos_left _ h⟩

theorem Format.low_pos (hp : 0 < fmt.precision) (h : 0 < units) :
    0 < (fmt.neighbourhood units).low := by
  have hstep := fmt.step_le hp h
  unfold neighbourhood
  dsimp only
  split
  all_goals omega

theorem within_zero {closed : Bool} {low high : Nat} (h : 0 < low) :
    within closed low 0 high = false := by
  unfold within
  split
  · rw [decide_eq_false (Nat.not_le_of_lt h), Bool.false_and]
  · rw [decide_eq_false (Nat.not_lt_zero low), Bool.false_and]

theorem Neighbourhood.nearestMultiple_pos {near : Neighbourhood} (hlow : 0 < near.low) {tie : Tie}
    {exponent : Int} {k : Nat} (h : near.nearestMultiple tie exponent = some k) : 0 < k := by
  have hscaled : 0 < near.low * 10 ^ (-exponent).toNat :=
    Nat.mul_pos hlow (Nat.pow_pos (by decide))
  unfold nearestMultiple at h
  dsimp only at h
  generalize near.value * 10 ^ (-exponent).toNat / (near.den * 10 ^ exponent.toNat) = below at h
  have hbelow : within near.closed (near.low * 10 ^ (-exponent).toNat)
      (below * (near.den * 10 ^ exponent.toNat)) (near.high * 10 ^ (-exponent).toNat) = true →
        0 < below := by
    intro hreads
    apply Nat.pos_of_ne_zero
    rintro rfl
    rw [Nat.zero_mul, within_zero hscaled] at hreads
    exact absurd hreads Bool.false_ne_true
  split at h
  · exact absurd h (Option.some_ne_none k).symm
  · next hreads _ =>
    obtain rfl := Option.some.inj h
    exact hbelow hreads
  · obtain rfl := Option.some.inj h
    exact Nat.succ_pos below
  · next hreads _ =>
    have hpos := hbelow hreads
    split at h
    · obtain rfl := Option.some.inj h
      exact hpos
    · split at h
      · obtain rfl := Option.some.inj h
        exact Nat.succ_pos below
      · split at h
        all_goals
          obtain rfl := Option.some.inj h
          exact Nat.lt_of_lt_of_le hpos (Nat.le_add_right below _)

/-! ### The digits of the shortest decimal -/

namespace ShortDecimal

/-- Zero with its one digit, or digits of which the first is none. -/
inductive Normal : ShortDecimal → Prop
  | zero : Normal ⟨['0'], 0⟩
  | digits {c cs exponent} : c ≠ '0' → IsDigits (c :: cs) → Normal ⟨c :: cs, exponent⟩

theorem Normal.ne_nil {x : ShortDecimal} (h : x.Normal) : x.digits ≠ [] := by
  cases h with
  | zero => exact List.cons_ne_nil '0' []
  | @digits c cs => exact List.cons_ne_nil c cs

theorem Normal.isDigits {x : ShortDecimal} (h : x.Normal) : IsDigits x.digits := by
  cases h with
  | zero => exact isDigits_replicate_zero 1
  | digits _ hdigits => exact hdigits

/-- The zeros at the end of a positive number do not reach its first digit. -/
theorem normal_ofNat {k : Nat} (hk : 0 < k) (exponent : Int) : (ofNat k exponent).Normal := by
  obtain ⟨c, cs, htext, hc⟩ := exists_toDigits_eq_cons hk
  have hdigits := isDigits_toDigits k
  unfold ofNat
  rw [htext] at hdigits ⊢
  dsimp only
  generalize hzeros : ((c :: cs).reverse.takeWhile (· == '0')).length = zeros
  have hle : zeros ≤ cs.length := by
    apply Nat.le_of_not_lt
    intro hlt
    have htake : (c :: cs).reverse.takeWhile (· == '0') = (c :: cs).reverse := by
      apply (List.takeWhile_prefix _).eq_of_length_le
      rw [hzeros, List.length_reverse, List.length_cons]
      exact hlt
    exact hc (eq_of_beq (List.takeWhile_eq_self_iff.1 htake c (by simp)))
  rw [List.length_cons, Nat.succ_sub hle, List.take_succ_cons]
  apply Normal.digits hc
  intro d hd
  rcases List.mem_cons.1 hd with rfl | hd
  · exact hdigits _ List.mem_cons_self
  · exact hdigits d (List.mem_cons_of_mem c (List.mem_of_mem_take hd))

end ShortDecimal

theorem Format.normal_shortest (hp : 0 < fmt.precision) (tie : Tie) (units : Nat) :
    (fmt.shortest tie units).Normal := by
  unfold shortest
  split
  · exact .zero
  · next hunits =>
    dsimp only
    split
    · next k exponent hfound =>
      obtain ⟨count, -, hcount⟩ := List.exists_of_findSome?_eq_some hfound
      obtain ⟨k', hk', heq⟩ := Option.map_eq_some_iff.1 hcount
      obtain ⟨rfl, -⟩ := Prod.mk.inj heq
      have hlow := fmt.low_pos hp (Nat.pos_of_ne_zero hunits)
      exact ShortDecimal.normal_ofNat (Neighbourhood.nearestMultiple_pos hlow hk') exponent
    · exact .zero

/-- Wherever the point is, there is a digit on each side of it. -/
theorem ShortDecimal.writesPlain_positional {x : ShortDecimal} (h : x.Normal) :
    ∃ scaled places, Numeral.WritesPlain x.positional scaled places := by
  have hne := h.ne_nil
  have hdigits := h.isDigits
  unfold positional
  split
  · -- zeros up to the point
    have hwhole := isDigits_append.2 ⟨hdigits, isDigits_replicate_zero x.exponent.toNat⟩
    rw [← List.append_nil (x.digits ++ _)]
    exact ⟨_, _, .mk (List.append_ne_nil_of_left_ne_nil hne _) hwhole .none⟩
  · next hexponent =>
    dsimp only
    split
    · next hplaces =>
      refine ⟨_, _, .mk ?_ (fun c hc => hdigits c (List.mem_of_mem_take hc))
        (.some ?_ fun c hc => hdigits c (List.mem_of_mem_drop hc))⟩
      · apply List.ne_nil_of_length_pos
        rw [List.length_take]
        omega
      · apply List.ne_nil_of_length_pos
        rw [List.length_drop]
        omega
    · -- zeros behind the point
      have hfraction := isDigits_append.2 ⟨isDigits_replicate_zero
        ((-x.exponent).toNat - x.digits.length), hdigits⟩
      exact ⟨_, _, .mk (List.cons_ne_nil '0' []) (isDigits_replicate_zero 1)
        (.some (List.append_ne_nil_of_right_ne_nil _ hne) hfraction)⟩

end Binary

/-! ### Operands -/

theorem exists_ofText_positional {fmt : Format} (hp : 0 < fmt.precision) (tie : Tie)
    (units : Nat) :
    ∃ o, Operands.ofText (String.ofList (fmt.shortest tie units).positional) = .ok o := by
  obtain ⟨scaled, places, hplain⟩ :=
    ShortDecimal.writesPlain_positional (fmt.normal_shortest hp tie units)
  exact ⟨_, Numeral.ofText_of_writesPlain hplain⟩

theorem exists_ofDouble {x : Double} (h : x.isFinite = true) :
    ∃ o, Operands.ofDouble x = .ok o := by
  unfold Operands.ofDouble
  rw [if_pos h]
  cases x with
  | nan => exact absurd h Bool.false_ne_true
  | infinite => exact absurd h Bool.false_ne_true
  | finite negative units exact => exact exists_ofText_positional (by decide) .greater units

theorem exists_ofSingleBits {bits : Nat} (h : (bits >>> 23) % 0x100 ≠ 0xFF) :
    ∃ o, Operands.ofSingleBits bits = .ok o := by
  unfold Operands.ofSingleBits
  dsimp only
  rw [if_neg h]
  exact exists_ofText_positional (by decide) .greater _

end PluralForms
