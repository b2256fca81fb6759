import PluralForms.Numeral
import PluralForms.Proofs.Text.Trimming

/-!
# Digit lists and the numbers they stand for

A list of digits stands for a number in decimal notation, zeros in front included, so a number has
many lists and a list one number. The value of a list is known from the values of its parts.

* `digitsValue_append` - digits in front count as many times ten as there are digits behind them;
* `digitsValue_lt` - a list of `k` digits stands for a number below `10 ^ k`;
* `exists_toDigits_eq_cons` - the digits that write a number begin with one that counts;
* `digits1_eq_some_iff` - a reader takes all the digits that there are.
-/

namespace PluralForms

/-- Decimal digits only, perhaps none. -/
def IsDigits (ds : List Char) : Prop := ∀ c ∈ ds, c.isDigit = true

instance (ds : List Char) : Decidable (IsDigits ds) :=
  decidable_of_iff (ds.all Char.isDigit = true) List.all_eq_true

theorem isDigits_nil : IsDigits [] := fun _ hc => absurd hc List.not_mem_nil

theorem isDigits_append {as bs : List Char} :
    IsDigits (as ++ bs) ↔ IsDigits as ∧ IsDigits bs := by
  constructor
  · intro h
    exact ⟨fun c hc => h c (List.mem_append_left bs hc),
      fun c hc => h c (List.mem_append_right as hc)⟩
  · rintro ⟨ha, hb⟩ c hc
    rcases List.mem_append.1 hc with hc | hc
    · exact ha c hc
    · exact hb c hc

theorem isDigits_replicate_zero (k : Nat) : IsDigits (List.replicate k '0') := by
  intro c hc
  rw [List.eq_of_mem_replicate hc]
  rfl

/-- The digits that write a number are digits. -/
theorem isDigits_toDigits (n : Nat) : IsDigits (Nat.toDigits 10 n) :=
  fun _ hc => Nat.isDigit_of_mem_toDigits (by decide) (by decide) hc

theorem toList_toString (n : Nat) : (toString n).toList = Nat.toDigits 10 n := by
  rw [Nat.toString_eq_ofList_toDigits, String.toList_ofList]

theorem not_isBlank_of_isDigit {c : Char} (h : c.isDigit = true) : Text.isBlank c = false := by
  apply Text.not_isBlank_of_printed
  obtain ⟨hlow, hhigh⟩ := Char.isDigit_iff_toNat.1 h
  rw [show '0'.toNat = 48 from rfl] at hlow
  rw [show '9'.toNat = 57 from rfl] at hhigh
  omega

/-! ### Values -/

theorem digitsValue_append (as bs : List Char) :
    digitsValue (as ++ bs) = digitsValue as * 10 ^ bs.length + digitsValue bs := by
  unfold digitsValue
  rw [Nat.ofDigitChars_append, Nat.mul_comm]
  exact Nat.ofDigitChars_eq_ofDigitChars_zero

theorem digitsValue_replicate_zero (k : Nat) : digitsValue (List.replicate k '0') = 0 := by
  unfold digitsValue
  rw [Nat.ofDigitChars_replicate_zero, Nat.mul_zero]

@[simp] theorem digitsValue_toDigits (n : Nat) : digitsValue (Nat.toDigits 10 n) = n :=
  Nat.ofDigitChars_ten_toDigits

theorem digitsValue_singleton (c : Char) : digitsValue [c] = c.toNat - '0'.toNat := by
  unfold digitsValue
  rw [Nat.ofDigitChars_cons, Nat.ofDigitChars_nil, Nat.mul_zero, Nat.zero_add]

/-- The value of a digit is below ten, and only that of `0` is zero. -/
theorem digitsValue_digit {c : Char} (hc : c.isDigit = true) :
    digitsValue [c] < 10 ∧ (digitsValue [c] = 0 ↔ c = '0') := by
  have hrange := Char.isDigit_iff_toNat.1 hc
  have h0 : '0'.toNat = 48 := rfl
  have h9 : '9'.toNat = 57 := rfl
  rw [h0, h9] at hrange
  rw [digitsValue_singleton, h0]
  refine ⟨by omega, fun h => ?_, fun h => by rw [h, h0]⟩
  exact Char.toNat_inj.1 (by rw [h0]; omega)

theorem digitsValue_lt {ds : List Char} (h : IsDigits ds) : digitsValue ds < 10 ^ ds.length := by
  induction ds with
  | nil => exact Nat.zero_lt_one
  | cons c ds ih =>
    have hc := (digitsValue_digit (h c List.mem_cons_self)).1
    have hds := ih fun d hd => h d (List.mem_cons_of_mem c hd)
    have happ : digitsValue (c :: ds) = digitsValue [c] * 10 ^ ds.length + digitsValue ds :=
      digitsValue_append [c] ds
    rw [happ, List.length_cons, Nat.pow_succ]
    have hmul : digitsValue [c] * 10 ^ ds.length ≤ 9 * 10 ^ ds.length :=
      Nat.mul_le_mul_right _ (by omega)
    omega

/-- A positive number is written without a zero in front. -/
theorem exists_toDigits_eq_cons {n : Nat} (h : 0 < n) :
    ∃ c cs, Nat.toDigits 10 n = c :: cs ∧ c ≠ '0' := by
  cases htext : Nat.toDigits 10 n with
  | nil => exact absurd htext Nat.toDigits_ne_nil
  | cons c cs =>
    refine ⟨c, cs, rfl, ?_⟩
    rintro rfl
    -- the digits behind a zero make up the number, which is too large for them
    have hvalue : digitsValue cs = n := by
      rw [← digitsValue_toDigits n, htext, ← List.singleton_append, digitsValue_append]
      simp [digitsValue_singleton]
    have hlt : n < 10 ^ cs.length := by
      rw [← hvalue]
      apply digitsValue_lt
      intro d hd
      exact isDigits_toDigits n d (htext ▸ List.mem_cons_of_mem _ hd)
    cases cs with
    | nil => exact absurd hvalue (Nat.ne_of_lt h)
    | cons d ds =>
      have hlength := (Nat.length_toDigits_le_iff (by decide) (Nat.succ_pos ds.length)).2 hlt
      rw [htext, List.length_cons, List.length_cons] at hlength
      omega

/-! ### Reading digits -/

theorem Numeral.digits1_eq_some_iff {cs ds rest : List Char} :
    digits1 cs = some (ds, rest) ↔
      ds ≠ [] ∧ IsDigits ds ∧ cs = ds ++ rest ∧ ∀ c ∈ rest.head?, c.isDigit = false := by
  have hcs : cs.takeWhile Char.isDigit ++ cs.dropWhile Char.isDigit = cs :=
    List.takeWhile_append_dropWhile
  constructor
  · intro h
    unfold digits1 at h
    split at h
    · simp at h
    · next first others htake =>
      simp only [Option.some.injEq, Prod.mk.injEq] at h
      obtain ⟨rfl, rfl⟩ := h
      rw [htake] at hcs
      exact ⟨List.cons_ne_nil _ _, htake ▸ Text.run_takeWhile cs, hcs.symm, Text.stop_dropWhile cs⟩
  · rintro ⟨hne, hds, rfl, hstop⟩
    unfold digits1
    rw [Text.takeWhile_run hds hstop, Text.dropWhile_run hds hstop]
    cases ds with
    | nil => exact absurd rfl hne
    | cons first others => rfl

theorem Numeral.decimal_of_readExponent {d : Decimal} {cs : List Char} {numeral : Numeral}
    (h : readExponent d cs = some numeral) : numeral.decimal = d := by
  unfold readExponent at h
  split at h
  · cases h
    rfl
  · split at h
    · obtain ⟨e, -, rfl⟩ := Option.map_eq_some_iff.1 h
      rfl
    · simp at h

theorem Numeral.isDigits_of_readUnsigned {cs : List Char} {numeral : Numeral}
    (h : readUnsigned cs = some numeral) :
    IsDigits numeral.decimal.whole ∧ IsDigits numeral.decimal.fraction := by
  unfold readUnsigned at h
  obtain ⟨⟨ds, rest⟩, hwhole, hrest⟩ := Option.bind_eq_some_iff.1 h
  have hds : IsDigits ds := (digits1_eq_some_iff.1 hwhole).2.1
  dsimp only at hrest
  split at hrest
  · obtain ⟨⟨es, behind⟩, hfraction, hbehind⟩ := Option.bind_eq_some_iff.1 hrest
    rw [decimal_of_readExponent hbehind]
    exact ⟨hds, (digits1_eq_some_iff.1 hfraction).2.1⟩
  · rw [decimal_of_readExponent hrest]
    exact ⟨hds, isDigits_nil⟩

/-- A numeral is made of digits. -/
theorem Numeral.isDigits_of_read {cs : List Char} {numeral : Numeral}
    (h : read cs = some numeral) :
    IsDigits numeral.decimal.whole ∧ IsDigits numeral.decimal.fraction := by
  unfold read at h
  split at h
  · exact isDigits_of_readUnsigned h
  · exact isDigits_of_readUnsigned h

end PluralForms
