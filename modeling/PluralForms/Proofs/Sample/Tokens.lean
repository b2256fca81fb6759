import PluralForms.Proofs.Numeral.Plain
import PluralForms.Proofs.Text.Pieces
import PluralForms.Sample

/-!
# The tokens of a list of samples

A token stands for "and so on", is a compact numeral, a number in digits, or a range between two
numbers. A number in digits becomes a multiple of its last decimal place, and of a smaller place if
more places are asked for; the multiple has to fit a word of 64 bits:

    expandToken_of_spells : a number stands for one sample
    expandToken_of_range : a range stands for the samples from its first number to its last, of
      which no more are taken than allowed

Blanks around the numbers of a range are ignored.

* `Spells` - the numbers that are read: a point may stand without digits behind it.
-/

namespace PluralForms

/-- `token` has digits that make up `digits`, the last `width` of them behind a point. Without a
point there are none behind it, and with one there may be none either. -/
inductive Spells : List Char → Nat → Nat → Prop
  | whole {ds} : ds ≠ [] → IsDigits ds → Spells ds (digitsValue ds) 0
  | pointed {ds fraction} : ds ≠ [] → IsDigits ds → IsDigits fraction →
      Spells (ds ++ '.' :: fraction) (digitsValue (ds ++ fraction)) fraction.length

/-- How many units of the last of `places` decimal places make up `digits`, of which `width` stand
behind the point. -/
def unitsAt (places digits width : Nat) : Nat := digits * 10 ^ (places - width)

variable {token : List Char} {least digits width : Nat}

theorem unitsAt_self (places digits : Nat) : unitsAt places digits places = digits := by
  unfold unitsAt
  rw [Nat.sub_self, Nat.pow_zero, Nat.mul_one]

/-! ### Numbers in digits -/

theorem spells_of_writesPlain (h : Numeral.WritesPlain token digits width) :
    Spells token digits width := by
  obtain @⟨whole, behind, fraction, hne, hwhole, hfraction⟩ := h
  cases hfraction with
  | none => simpa using Spells.whole hne hwhole
  | some _ hds => exact .pointed hne hwhole hds

theorem mem_of_spells (h : Spells token digits width) {c : Char} (hc : c ∈ token) :
    c.isDigit = true ∨ c = '.' := by
  cases h with
  | whole _ hds => exact Or.inl (hds c hc)
  | pointed _ hds hfraction =>
    rcases List.mem_append.1 hc with hc | hc
    · exact Or.inl (hds c hc)
    · rcases List.mem_cons.1 hc with rfl | hc
      · exact Or.inr rfl
      · exact Or.inl (hfraction c hc)

/-- A number has no other characters. -/
theorem not_mem_of_spells (h : Spells token digits width) {c : Char} (hdigit : c.isDigit = false)
    (hpoint : c ≠ '.') : c ∉ token := by
  intro hc
  rcases mem_of_spells h hc with htrue | heq
  · rw [hdigit] at htrue
    exact absurd htrue Bool.false_ne_true
  · exact hpoint heq

theorem exists_digit_of_spells (h : Spells token digits width) :
    ∃ c ∈ token, c.isDigit = true := by
  have hfirst : ∀ ds behind : List Char, ds ≠ [] → IsDigits ds →
      ∃ c ∈ ds ++ behind, c.isDigit = true := by
    intro ds behind hne hds
    obtain ⟨c, rest, rfl⟩ := List.exists_cons_of_ne_nil hne
    exact ⟨c, List.mem_cons_self, hds c List.mem_cons_self⟩
  cases h with
  | whole hne hds => simpa using hfirst _ [] hne hds
  | pointed hne hds _ => exact hfirst _ _ hne hds

/-- A token is its parts with the point between them, or it has none. -/
theorem pointParts_cases (token : List Char) :
    token = (pointParts token).1 ∧ (pointParts token).2 = [] ∨
      token = (pointParts token).1 ++ '.' :: (pointParts token).2 := by
  unfold pointParts
  by_cases hpoint : '.' ∈ token
  · obtain ⟨whole, fraction, rfl, hwhole⟩ := List.eq_append_cons_of_mem hpoint
    rw [Text.cutAt_append hwhole]
    exact Or.inr rfl
  · rw [Text.cutAt_eq_none hpoint]
    exact Or.inl ⟨rfl, rfl⟩

/-- The parts around the point are digits, at least one of them before it. -/
theorem exists_pointParts (h : Spells token digits width) : ∃ whole fraction,
    pointParts token = (whole, fraction) ∧ whole ≠ [] ∧ IsDigits whole ∧ IsDigits fraction ∧
      digitsValue (whole ++ fraction) = digits ∧ fraction.length = width := by
  have hpoint : ∀ ds, IsDigits ds → '.' ∉ ds := fun ds hds hc => absurd (hds '.' hc) (by decide)
  unfold pointParts
  cases h with
  | whole hne hds =>
    rw [Text.cutAt_eq_none (hpoint _ hds), Option.getD_none]
    exact ⟨token, [], rfl, hne, hds, isDigits_nil,
      congrArg digitsValue (List.append_nil token), rfl⟩
  | @pointed ds fraction hne hds hfraction =>
    rw [Text.cutAt_append (hpoint _ hds), Option.getD_some]
    exact ⟨ds, fraction, rfl, hne, hds, hfraction, rfl, rfl⟩

theorem fractionWidth_of_spells (h : Spells token digits width) : fractionWidth token = width := by
  obtain ⟨whole, fraction, hparts, -, -, -, -, hlength⟩ := exists_pointParts h
  unfold fractionWidth
  rw [hparts, hlength]

/-- A number with no more places than asked for is read, if its multiple fits a word. -/
theorem scaledValue_of_spells (h : Spells token digits width) (places : Nat)
    (hwidth : width ≤ places) : scaledValue token places =
      if unitsAt places digits width ≤ maxWord then some (unitsAt places digits width)
      else none := by
  obtain ⟨whole, fraction, hparts, hne, hwhole, hfraction, rfl, rfl⟩ := exists_pointParts h
  have hdigits : whole ≠ [] ∧ whole.all Char.isDigit = true ∧ fraction.all Char.isDigit = true ∧
      fraction.length ≤ places :=
    ⟨hne, List.all_eq_true.2 hwhole, List.all_eq_true.2 hfraction, hwidth⟩
  unfold scaledValue
  rw [hparts]
  exact if_pos hdigits

/-! ### The kinds of tokens -/

theorem isEllipsis_eq_false (h : ∃ c ∈ token, c.isDigit = true) : isEllipsis token = false := by
  obtain ⟨c, hc, hdigit⟩ := h
  unfold isEllipsis
  rw [Bool.or_eq_false_iff, decide_eq_false_iff_not, decide_eq_false_iff_not]
  constructor
  all_goals
    rintro rfl
    simp only [List.mem_cons, List.not_mem_nil, or_false, or_self] at hc
    rw [hc] at hdigit
    exact absurd hdigit (by decide)

theorem expandToken_of_ellipsis (h : isEllipsis token = true) :
    (expandToken least token).samples = [] := by
  unfold expandToken
  rw [if_pos h]

theorem expandToken_of_marked (hellipsis : isEllipsis token = false)
    (h : 'c' ∈ token ∨ 'e' ∈ token) :
    expandToken least token = ⟨[.compact (String.ofList token)], []⟩ := by
  have hmark : token.any (fun c => c == 'c' || c == 'e') = true := by
    rw [List.any_eq_true]
    rcases h with hc | he
    · exact ⟨'c', hc, rfl⟩
    · exact ⟨'e', he, rfl⟩
  unfold expandToken
  rw [hellipsis, hmark, if_neg Bool.false_ne_true, if_pos rfl]

/-- Other tokens are ranges or numbers. -/
theorem expandToken_of_unmarked (hellipsis : isEllipsis token = false)
    (h : 'c' ∉ token ∧ 'e' ∉ token) : expandToken least token =
      (match Text.cutAt '~' token with
        | some (start, stop) => expandRange (Text.trim start) (Text.trim stop) least
        | none => expandNumeral token least).getD (Expansion.malformed token) := by
  have hmark : token.any (fun c => c == 'c' || c == 'e') = false := by
    rw [List.any_eq_false]
    intro d hd hmarked
    rw [Bool.or_eq_true, beq_iff_eq, beq_iff_eq] at hmarked
    rcases hmarked with rfl | rfl
    · exact h.1 hd
    · exact h.2 hd
  unfold expandToken
  rw [hellipsis, hmark]
  rfl

/-! ### Numbers -/

theorem expandToken_of_spells (h : Spells token digits width)
    (hfits : unitsAt (max least width) digits width ≤ maxWord) :
    expandToken least token =
      ⟨[Sample.ofScaled (unitsAt (max least width) digits width) (max least width)], []⟩ := by
  have hmark : 'c' ∉ token ∧ 'e' ∉ token :=
    ⟨not_mem_of_spells h rfl (by decide), not_mem_of_spells h rfl (by decide)⟩
  have htilde : '~' ∉ token := not_mem_of_spells h rfl (by decide)
  rw [expandToken_of_unmarked (isEllipsis_eq_false (exists_digit_of_spells h)) hmark,
    Text.cutAt_eq_none htilde]
  unfold expandNumeral
  dsimp only
  rw [fractionWidth_of_spells h, scaledValue_of_spells h _ (Nat.le_max_right _ _), if_pos hfits]
  rfl

/-! ### Ranges -/

section

variable {start stop : List Char} {a b v w : Nat}

/-- The samples from one number to another. There are none if the second is smaller. -/
theorem expandRange_of_spells (hstart : Spells start a v) (hstop : Spells stop b w) {places : Nat}
    (hplaces : places = max least (max v w)) (hlast : unitsAt places b w ≤ maxWord)
    {other : Expansion} (hother : other.samples = []) :
    ((expandRange start stop least).getD other).samples =
      (List.range (min (unitsAt places b w + 1 - unitsAt places a v) maxRangeSamples)).map fun k =>
        Sample.ofScaled (unitsAt places a v + k) places := by
  have hread := scaledValue_of_spells hstart places (by omega)
  have hread' := scaledValue_of_spells hstop places (by omega)
  rw [if_pos hlast] at hread'
  generalize unitsAt places a v = first at *
  generalize unitsAt places b w = last at *
  unfold expandRange
  rw [fractionWidth_of_spells hstart, fractionWidth_of_spells hstop, ← hplaces]
  dsimp only
  rw [hread, hread']
  have hempty : last < first → min (last + 1 - first) maxRangeSamples = 0 := by omega
  by_cases hfirst : first ≤ maxWord
  · rw [if_pos hfirst]
    dsimp only
    by_cases horder : last < first
    · rw [if_pos horder, hempty horder]
      rfl
    · have hcount : last + 1 - first = last - first + 1 := by omega
      rw [if_neg horder, hcount]
      split <;> rfl
  · -- what does not fit a word is greater than what does
    rw [if_neg hfirst, hempty (by omega)]
    exact hother

/-- Blanks aside, the end of a range has digits and points only. -/
theorem not_mem_of_spells_trim (h : Spells (Text.trim start) a v) {c : Char}
    (hdigit : c.isDigit = false) (hpoint : c ≠ '.') (hblank : Text.isBlank c = false) :
    c ∉ start := by
  intro hc
  exact not_mem_of_spells h hdigit hpoint (Text.mem_trim hc hblank)

theorem expandToken_of_range (hstart : Spells (Text.trim start) a v)
    (hstop : Spells (Text.trim stop) b w) {places : Nat} (hplaces : places = max least (max v w))
    (hlast : unitsAt places b w ≤ maxWord) :
    (expandToken least (start ++ '~' :: stop)).samples =
      (List.range (min (unitsAt places b w + 1 - unitsAt places a v) maxRangeSamples)).map fun k =>
        Sample.ofScaled (unitsAt places a v + k) places := by
  have hdigit : ∃ c ∈ start ++ '~' :: stop, c.isDigit = true := by
    obtain ⟨c, hc, hdigit⟩ := exists_digit_of_spells hstart
    exact ⟨c, List.mem_append_left _ (Text.mem_of_mem_trim hc), hdigit⟩
  have hmark : ∀ c : Char, c.isDigit = false → c ≠ '.' → Text.isBlank c = false → c ≠ '~' →
      c ∉ start ++ '~' :: stop := by
    intro c hdigit hpoint hblank htilde hc
    rcases List.mem_append.1 hc with hc | hc
    · exact not_mem_of_spells_trim hstart hdigit hpoint hblank hc
    · rcases List.mem_cons.1 hc with heq | hc
      · exact htilde heq
      · exact not_mem_of_spells_trim hstop hdigit hpoint hblank hc
  have hmarks : 'c' ∉ start ++ '~' :: stop ∧ 'e' ∉ start ++ '~' :: stop :=
    ⟨hmark 'c' rfl (by decide) rfl (by decide), hmark 'e' rfl (by decide) rfl (by decide)⟩
  have htilde : '~' ∉ start := not_mem_of_spells_trim hstart rfl (by decide) rfl
  rw [expandToken_of_unmarked (isEllipsis_eq_false hdigit) hmarks, Text.cutAt_append htilde]
  exact expandRange_of_spells hstart hstop hplaces hlast rfl

end

end PluralForms
