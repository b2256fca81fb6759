import PluralForms.Proofs.Operands.Integers
import PluralForms.Proofs.Word.Arithmetic

/-!
# Operands in words

The operands of a number, held in words: `WordOperands`. They are folded so that they fit, zeros are
written behind them with products of 128 bits, and moduli are taken of them, all of it checked.
Whatever the words are, nothing goes wrong, and what comes out are the operands that are computed
with unbounded numbers:

    padded_yields : any zeros may be written behind any operands
    reduced_yields : any modulus may be taken of any operand
-/

namespace PluralForms

open Binary Checked

/-! ### Folding -/

namespace Word

/-- Words from here on are folded. -/
def foldBase : Word := BitVec.ofNat 64 PluralForms.foldBase

/-- A word, folded. -/
def fold (value : Word) : Checked Word :=
  if value < foldBase then return value
  else do add foldBase (← rem value foldBase)

theorem toNat_foldBase : foldBase.toNat = PluralForms.foldBase := rfl

theorem rem_foldBase_yields (value : Word) :
    Yields (rem value foldBase) (·.toNat = value.toNat % PluralForms.foldBase) := by
  have hbase : foldBase ≠ 0 := by decide
  exact rem_yields hbase

/-- A folded word fits. -/
theorem add_foldBase_yields {low : Word} (h : low.toNat < PluralForms.foldBase) :
    Yields (add foldBase low) (·.toNat = PluralForms.foldBase + low.toNat) := by
  have hbound : 2 * PluralForms.foldBase < 2 ^ 64 := by decide
  apply add_yields
  rw [toNat_foldBase]
  omega

theorem fold_yields (value : Word) :
    Yields (fold value) (·.toNat = PluralForms.fold value.toNat) := by
  unfold fold PluralForms.fold
  simp only [BitVec.lt_def, toNat_foldBase]
  split
  · exact yields_pure rfl
  · refine (rem_foldBase_yields value).bind fun low hlow => ?_
    rw [← hlow]
    apply add_foldBase_yields
    rw [hlow]
    exact Nat.mod_lt _ foldBase_pos

/-- A folded fraction after `extra` zeros are written behind it. -/
def padFraction (fraction extra : Word) : Checked Word :=
  if fraction = 0 then return 0
  else if 18 ≤ extra then return foldBase
  else do
    let low ← convert 128 (← rem fraction foldBase)
    let shifted ← mul low (← pow 10 (← convert 32 extra))
    let limit ← convert 128 foldBase
    if fraction < foldBase ∧ shifted < limit then convert 64 shifted
    else do add foldBase (← convert 64 (← rem shifted limit))

/-- The product has at most thirty-five digits. -/
theorem shifted_lt {low extra : Nat} (hlow : low < PluralForms.foldBase) (hextra : extra < 18) :
    10 ^ extra < 2 ^ 128 ∧ low * 10 ^ extra < 2 ^ 128 := by
  have hpower : 10 ^ extra ≤ 10 ^ 17 := Nat.pow_le_pow_right (by decide) (by omega)
  have hproduct : low * 10 ^ extra ≤ PluralForms.foldBase * 10 ^ 17 :=
    Nat.mul_le_mul (Nat.le_of_lt hlow) hpower
  have hbound : PluralForms.foldBase * 10 ^ 17 < 2 ^ 128 := by decide
  have hbound' : (10 : Nat) ^ 17 < 2 ^ 128 := by decide
  omega

theorem padFraction_yields (fraction extra : Word) :
    Yields (padFraction fraction extra)
      (·.toNat = Operands.padFraction fraction.toNat extra.toNat) := by
  unfold padFraction Operands.padFraction
  have hzero : fraction = 0 ↔ fraction.toNat = 0 := BitVec.toNat_eq
  have hmany : (18 : Word) ≤ extra ↔ 18 ≤ extra.toNat := BitVec.le_def
  simp only [hzero, hmany, BitVec.lt_def, toNat_foldBase]
  split
  · exact yields_pure rfl
  split
  · exact yields_pure toNat_foldBase
  · next hfew =>
    have hlow : fraction.toNat % PluralForms.foldBase < PluralForms.foldBase :=
      Nat.mod_lt _ foldBase_pos
    obtain ⟨hpower, hproduct⟩ := shifted_lt hlow (Nat.lt_of_not_le hfew)
    have hbound : PluralForms.foldBase < 2 ^ 64 := by decide
    refine (rem_foldBase_yields fraction).bind fun low hrem => ?_
    refine (convert_yields (by omega)).bind fun low' hlow' => ?_
    refine (convert_yields (by omega)).bind fun zeros hzeros => ?_
    have hten : (10 : BitVec 128).toNat = 10 := rfl
    refine (pow_yields (by rwa [hten, hzeros])).bind fun power hpow => ?_
    rw [hten, hzeros] at hpow
    refine (mul_yields (by rwa [hlow', hrem, hpow])).bind fun shifted hshifted => ?_
    rw [hlow', hrem, hpow] at hshifted
    refine (convert_yields (by rw [toNat_foldBase]; omega)).bind fun limit hlimit => ?_
    rw [toNat_foldBase] at hlimit
    rw [hshifted, hlimit]
    split
    · next hsmall => exact (convert_yields (by omega)).imp fun r hr => hr.trans hshifted
    · have hne : limit ≠ 0 := by
        rw [ne_eq, BitVec.toNat_eq, hlimit]
        decide
      have hkept := Nat.mod_lt (fraction.toNat % PluralForms.foldBase * 10 ^ extra.toNat)
        foldBase_pos
      refine (rem_yields hne).bind fun kept hrest => ?_
      rw [hshifted, hlimit] at hrest
      refine (convert_yields (by omega)).bind fun kept' hkept' => ?_
      rw [← hrest, ← hkept']
      exact add_foldBase_yields (by omega)

end Word

/-! ### Operands -/

/-- The operands of a number, in words. -/
structure WordOperands where
  n : Double
  i : Word
  v : Word
  w : Word
  f : Word
  t : Word
  c : Word
  deriving DecidableEq

namespace WordOperands

/-- The operands as unbounded numbers. -/
def operands (x : WordOperands) : Operands where
  n := x.n
  i := x.i.toNat
  v := x.v.toNat
  w := x.w.toNat
  f := x.f.toNat
  t := x.t.toNat
  c := x.c.toNat

/-- The operands of a whole number. -/
def ofWord (value : Word) : Checked WordOperands := do
  return ⟨Double.ofNat value.toNat, ← Word.fold value, 0, 0, 0, 0, 0⟩

/-- The operands of a number in an unsigned word of any width. -/
def ofUnsigned {bits : Nat} (value : BitVec bits) : Checked WordOperands := do
  ofWord (← convert 64 value)

/-- The operands of a number in a signed word of any width. -/
def ofSigned {bits : Nat} (value : BitVec bits) : Checked WordOperands := do
  ofWord (← convert 64 value.abs)

theorem ofWord_yields (value : Word) :
    Yields (ofWord value) (·.operands = Operands.ofNat value.toNat) := by
  refine (Word.fold_yields value).bind fun i hi => yields_pure ?_
  unfold operands Operands.ofNat
  dsimp only
  rw [hi]
  rfl

theorem ofUnsigned_yields {bits : Nat} (hbits : bits ≤ 64) (value : BitVec bits) :
    Yields (ofUnsigned value) (·.operands = Operands.ofNat value.toNat) := by
  have hlt : value.toNat < 2 ^ 64 :=
    Nat.lt_of_lt_of_le value.isLt (Nat.pow_le_pow_right (by decide) hbits)
  refine (convert_yields hlt).bind fun word hword => ?_
  rw [← hword]
  exact ofWord_yields word

theorem ofSigned_yields {bits : Nat} (hbits : bits ≤ 64) (value : BitVec bits) :
    Yields (ofSigned value) (·.operands = Operands.ofInt value.toInt) := by
  have hlt : value.abs.toNat < 2 ^ 64 :=
    Nat.lt_of_lt_of_le value.abs.isLt (Nat.pow_le_pow_right (by decide) hbits)
  refine (convert_yields hlt).bind fun word hword => ?_
  unfold Operands.ofInt
  rw [← toNat_abs, ← hword]
  exact ofWord_yields word

/-! ### Zeros behind the fraction -/

/-- The operands with at least `digits` visible fraction digits. -/
def withFractionDigits (x : WordOperands) (digits : Word) : Checked WordOperands :=
  if digits ≤ x.v then return x
  else do
    let f ← Word.padFraction x.f (← sub digits x.v)
    return { x with f, v := digits }

/-- The operands after zeros are written again and again. -/
def padded (x : WordOperands) (digits : List Word) : Checked WordOperands :=
  digits.foldlM withFractionDigits x

theorem withFractionDigits_yields (x : WordOperands) (digits : Word) :
    Yields (x.withFractionDigits digits)
      (·.operands = x.operands.withFractionDigits digits.toNat) := by
  unfold withFractionDigits Operands.withFractionDigits
  simp only [BitVec.le_def]
  have hv : x.operands.v = x.v.toNat := rfl
  rw [hv]
  split
  · exact yields_pure rfl
  · next hmore =>
    refine (sub_yields (Nat.le_of_not_le hmore)).bind fun extra hextra => ?_
    refine (Word.padFraction_yields x.f extra).bind fun f hf => yields_pure ?_
    rw [hextra] at hf
    unfold operands
    rw [hf]

theorem padded_yields (x : WordOperands) (digits : List Word) :
    Yields (x.padded digits) (·.operands =
      digits.foldl (fun o more => o.withFractionDigits more.toNat) x.operands) := by
  induction digits generalizing x with
  | nil => exact yields_pure rfl
  | cons more digits ih =>
    unfold padded
    rw [List.foldlM_cons, List.foldl_cons]
    refine (x.withFractionDigits_yields more).bind fun y hy => ?_
    rw [← hy]
    exact ih y

/-! ### Values -/

/-- The operand as a whole number; of `n`, its integer part. -/
def integer (x : WordOperands) : Operand → Word
  | .n => x.i
  | .i => x.i
  | .v => x.v
  | .w => x.w
  | .f => x.f
  | .t => x.t
  | .c => x.c
  | .e => x.c

/-- The value of an operand. -/
def value (x : WordOperands) : Operand → Double
  | .n => x.n
  | operand => Double.ofNat (x.integer operand).toNat

/-- The part of `n` behind the point. -/
def fractionValue (x : WordOperands) : Checked Double :=
  if x.w = 0 then return Double.zero
  else if 18 < x.w then return x.n.fraction
  else do
    let power ← pow (10 : Word) (← convert 32 x.w)
    return Double.div (Double.ofNat x.t.toNat) (Double.ofNat power.toNat)

/-- The value of an operand after an optional modulus. -/
def reduced (x : WordOperands) (operand : Operand) : Option Word → Checked (Option Double)
  | none => return some (x.value operand)
  | some m =>
    if m = 0 then return none
    else match operand with
      | .n => do
        let low ← rem x.i m
        return some (Double.add (Double.ofNat low.toNat) (← x.fractionValue))
      | operand => do return some (Double.ofNat (← rem (x.integer operand) m).toNat)

theorem toNat_integer (x : WordOperands) (operand : Operand) :
    (x.integer operand).toNat = x.operands.integer operand := by
  cases operand <;> rfl

theorem value_eq (x : WordOperands) (operand : Operand) :
    x.value operand = x.operands.value operand := by
  cases operand <;> rfl

theorem fractionValue_yields (x : WordOperands) :
    Yields x.fractionValue (· = x.operands.fractionValue) := by
  unfold fractionValue Operands.fractionValue
  have hw : x.operands.w = x.w.toNat := rfl
  have hzero : x.w = 0 ↔ x.w.toNat = 0 := BitVec.toNat_eq
  have hmany : (18 : Word) < x.w ↔ 18 < x.w.toNat := BitVec.lt_def
  simp only [hw, hzero, hmany]
  split
  · exact yields_pure rfl
  split
  · exact yields_pure rfl
  · next hfew =>
    have hpower : 10 ^ x.w.toNat ≤ 10 ^ 18 := Nat.pow_le_pow_right (by decide) (by omega)
    have hbound : (10 : Nat) ^ 18 < 2 ^ 64 := by decide
    have hten : (10 : Word).toNat = 10 := rfl
    refine (convert_yields (by omega)).bind fun places hplaces => ?_
    refine (pow_yields (by rw [hten, hplaces]; omega)).bind fun power hpow => yields_pure ?_
    rw [hpow, hten, hplaces]
    rfl

theorem reduced_yields (x : WordOperands) (operand : Operand) (modulus : Option Word) :
    Yields (x.reduced operand modulus)
      (· = x.operands.reduced operand (modulus.map BitVec.toNat)) := by
  cases modulus with
  | none => exact yields_pure (congrArg some (x.value_eq operand))
  | some m =>
    unfold reduced
    dsimp only
    rw [Option.map_some]
    by_cases hm : m = 0
    · rw [if_pos hm, hm]
      exact yields_pure (x.operands.reduced_zero operand).symm
    · have hpos : 0 < m.toNat := Nat.pos_of_ne_zero fun h => hm (BitVec.eq_of_toNat_eq h)
      rw [if_neg hm]
      split
      · refine (rem_yields hm).bind fun low hlow => ?_
        refine x.fractionValue_yields.bind fun fraction hfraction => yields_pure ?_
        rw [Operands.reduced_n _ hpos, hlow, hfraction]
        rfl
      · next hne =>
        refine (rem_yields hm).bind fun low hlow => yields_pure ?_
        rw [Operands.reduced_of_ne hne _ hpos, hlow, toNat_integer]

end WordOperands

end PluralForms
