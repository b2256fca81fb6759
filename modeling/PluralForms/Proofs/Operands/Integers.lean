import PluralForms.Classifier
import PluralForms.Proofs.Operands.Coherent

/-!
# Integers and their texts

An integer can be given as such or as a text, its decimal digits behind a minus sign if it is
negative. As such its operands are computed from its absolute value; the text goes through the
reader of numerals, where the sign leaves no trace and the digits make up the absolute value again.
Both ways meet in the exact number without fraction digits,

    ofInt_eq_folded : Operands.ofInt k = (Exact.mk k.natAbs 0 0).folded

so they give the same operands (`ofText_toString`). That holds of every integer, so of all that fit
a word of any width, signed or not.

* `foldDigits_eq_fold` - a number is folded by looking at its digits as it is by division.
-/

namespace PluralForms

/-! ### Folding by digits -/

/-- The number of a list of digits, folded by counting them: zeros in front aside, up to eighteen
digits are the number itself, and of more the last eighteen are kept. -/
def foldDigits (ds : List Char) : Nat :=
  let counted := ds.dropWhile (· == '0')
  if counted.length ≤ 18 then digitsValue counted
  else foldBase + digitsValue (counted.drop (counted.length - 18))

/-- Zeros in front are taken off, and the digits that are left do not begin with one. -/
theorem exists_zeros_append (ds : List Char) :
    ∃ zeros, ds = List.replicate zeros '0' ++ ds.dropWhile (· == '0') := by
  refine ⟨(ds.takeWhile (· == '0')).length, ?_⟩
  have hzeros : ds.takeWhile (· == '0') = List.replicate (ds.takeWhile (· == '0')).length '0' :=
    List.eq_replicate_of_mem fun c hc => eq_of_beq (Text.run_takeWhile ds c hc)
  rw [← hzeros, List.takeWhile_append_dropWhile]

/-- Digits that begin with no zero stand for a number with as many places. -/
theorem ten_pow_le_digitsValue {d : Char} {ds : List Char} (hd : d.isDigit = true) (h0 : d ≠ '0') :
    10 ^ ds.length ≤ digitsValue (d :: ds) := by
  have hfirst : digitsValue [d] ≠ 0 := fun h => h0 ((digitsValue_digit hd).2.1 h)
  have hvalue : digitsValue (d :: ds) = digitsValue [d] * 10 ^ ds.length + digitsValue ds :=
    digitsValue_append [d] ds
  have hmul : 1 * 10 ^ ds.length ≤ digitsValue [d] * 10 ^ ds.length :=
    Nat.mul_le_mul_right _ (Nat.pos_of_ne_zero hfirst)
  omega

/-- Of a number with more than eighteen places the last eighteen are the remainder. -/
theorem fold_digitsValue_append {front low : List Char} (hfront : IsDigits front)
    (hne : front ≠ []) (hfirst : ∀ c ∈ front.head?, c ≠ '0') (hlow : IsDigits low)
    (hlength : low.length = 18) :
    fold (digitsValue (front ++ low)) = foldBase + digitsValue low := by
  have hsmall : digitsValue low < foldBase := by
    have hlt := digitsValue_lt hlow
    rwa [hlength] at hlt
  have hvalue : digitsValue (front ++ low) = foldBase * digitsValue front + digitsValue low := by
    rw [digitsValue_append, hlength, Nat.mul_comm]
    rfl
  have hpos : 0 < digitsValue front := by
    obtain ⟨d, rest, rfl⟩ := List.exists_cons_of_ne_nil hne
    have hplaces : 10 ^ rest.length ≤ digitsValue (d :: rest) :=
      ten_pow_le_digitsValue (hfront d List.mem_cons_self) (hfirst d rfl)
    exact Nat.lt_of_lt_of_le (Nat.pow_pos (by decide)) hplaces
  have hlarge : foldBase ≤ digitsValue (front ++ low) := by
    rw [hvalue]
    exact Nat.le_trans (Nat.le_mul_of_pos_right foldBase hpos) (Nat.le_add_right _ _)
  rw [fold_of_le hlarge, hvalue, Nat.mul_add_mod, Nat.mod_eq_of_lt hsmall]

theorem foldDigits_eq_fold {ds : List Char} (h : IsDigits ds) :
    foldDigits ds = fold (digitsValue ds) := by
  obtain ⟨zeros, hds⟩ := exists_zeros_append ds
  have hstop : ∀ c ∈ (ds.dropWhile (· == '0')).head?, (c == '0') = false := Text.stop_dropWhile ds
  unfold foldDigits
  dsimp only
  generalize ds.dropWhile (· == '0') = counted at hds hstop ⊢
  subst hds
  have hcounted : IsDigits counted := (isDigits_append.1 h).2
  rw [digitsValue_zeros_append]
  split
  · next hfew =>
    have hbound : digitsValue counted < foldBase :=
      Nat.lt_of_lt_of_le (digitsValue_lt hcounted) (Nat.pow_le_pow_right (by decide) hfew)
    rw [fold_of_lt hbound]
  · next hmany =>
    have hcut := List.take_append_drop (counted.length - 18) counted
    have hfront : (counted.take (counted.length - 18)).length = counted.length - 18 := by simp
    have hlast : (counted.drop (counted.length - 18)).length = 18 := by
      rw [List.length_drop]
      omega
    generalize counted.take (counted.length - 18) = front,
      counted.drop (counted.length - 18) = low at hcut hfront hlast ⊢
    subst hcut
    obtain ⟨hdigits, hlow⟩ := isDigits_append.1 hcounted
    have hne : front ≠ [] := List.ne_nil_of_length_pos (by omega)
    have hfirst : ∀ c ∈ front.head?, c ≠ '0' := by
      intro c hc
      have hhead : c ∈ (front ++ low).head? := by simp [Option.mem_def.1 hc]
      simpa using hstop c hhead
    exact (fold_digitsValue_append hdigits hne hfirst hlow hlast).symm

/-! ### Texts of integers -/

namespace Numeral

/-- The digits of a number. -/
def ofNat (n : Nat) : Numeral := ⟨⟨Nat.toDigits 10 n, []⟩, none⟩

theorem exact_ofNat (n : Nat) : (ofNat n).exact = ⟨n, 0, 0⟩ := by
  unfold exact ofNat
  simp

/-- With a minus sign in front or without, digits write the same numeral. -/
theorem written_ofNat {sign : List Char} (hsign : IsMinus sign) (n : Nat) :
    (ofNat n).Written (String.ofList (sign ++ Nat.toDigits 10 n)) := by
  have hwrites := Writes.mk hsign Nat.toDigits_ne_nil (isDigits_toDigits n) .none .none
  rw [List.nil_append, List.append_nil] at hwrites
  exact written_ofList hwrites

theorem written_toString_nat (n : Nat) : (ofNat n).Written (toString n) := by
  rw [Nat.toString_eq_ofList_toDigits]
  exact written_ofNat .none n

theorem written_toString_int (k : Int) : (ofNat k.natAbs).Written (toString k) := by
  cases k with
  | ofNat n => exact written_toString_nat n
  | negSucc n =>
    have htext : toString (Int.negSucc n) = "-" ++ toString (n + 1) := rfl
    rw [htext, Int.natAbs_negSucc, Nat.toString_eq_ofList_toDigits]
    have hminus : "-" = String.ofList ['-'] := rfl
    rw [hminus, ← String.ofList_append]
    exact written_ofNat .minus (n + 1)

end Numeral

/-! ### Operands of integers -/

namespace Operands

theorem ofInt_eq_folded (k : Int) : ofInt k = (Exact.mk k.natAbs 0 0).folded :=
  ofNat_eq_folded k.natAbs

/-- Whatever text writes the digits of the absolute value, it has the operands of the integer. -/
theorem ofText_of_written_natAbs {k : Int} {text : String}
    (h : (Numeral.ofNat k.natAbs).Written text) : ofText text = .ok (ofInt k) := by
  rw [ofInt_eq_folded, ← Numeral.exact_ofNat]
  exact ofText_eq_ok_iff.2 ⟨Numeral.ofNat k.natAbs, h, Nat.zero_le _, rfl⟩

/-- An integer, its text and the text of its absolute value have the same operands, whether its
digits are folded or the number itself, and no rule set tells them apart. -/
theorem ofText_toString (k : Int) :
    ofText (toString k) = .ok (ofInt k) ∧
    ofText (toString k.natAbs) = .ok (ofInt k) ∧
    (ofInt k).i = foldDigits (Nat.toDigits 10 k.natAbs) ∧
    ∀ set : RuleSet,
      (ofText (toString k)).map set.compile.classify = .ok (set.compile.classify (ofInt k)) ∧
      (ofText (toString k.natAbs)).map set.compile.classify =
        .ok (set.compile.classify (ofInt k)) := by
  have htext : ofText (toString k) = .ok (ofInt k) :=
    ofText_of_written_natAbs (Numeral.written_toString_int k)
  have habs : ofText (toString k.natAbs) = .ok (ofInt k) :=
    ofText_of_written_natAbs (Numeral.written_toString_nat k.natAbs)
  have hfold : (ofInt k).i = foldDigits (Nat.toDigits 10 k.natAbs) := by
    rw [foldDigits_eq_fold (isDigits_toDigits _), digitsValue_toDigits]
    rfl
  refine ⟨htext, habs, hfold, fun set => ?_⟩
  rw [htext, habs]
  exact ⟨rfl, rfl⟩

end Operands

end PluralForms
