import PluralForms.Proofs.Sample.AsWritten
import PluralForms.Verification

/-!
# What verification finds

A rule set has no mismatches when every sample that a token stands for belongs to the category of
its rule. That is about samples; a reader of the rules sees the tokens. If the tokens are taken as
they are written, the two are the same:

    verify_eq_nil_iff : set.verify = [] ↔ every listed token is a number of its category

Long numerals are not taken as they are written. One that is rounded becomes another number, and one
that does not fit a word is dropped, so there are mismatches where there should be none, and none
where there should be some.
-/

namespace PluralForms.RuleSet

variable {set : RuleSet} {category : Category} {token : List Char}

/-- The tokens in the sample sections of the rules, each with the category of its rule. -/
def listedTokens (set : RuleSet) : List (Category × List Char) :=
  set.rules.flatMap fun (category, text) =>
    (Rule.read text).sampleTexts.flatMap fun samples =>
      (sampleTokens samples.toList).map fun token => (category, token)

/-- The text is a number of the category. -/
def Belongs (set : RuleSet) (category : Category) (text : String) : Prop :=
  ∃ o, Operands.ofText text = .ok o ∧ set.compile.classify o = category

theorem belongs_iff {text : String} : set.Belongs category text ↔
    (Operands.ofText text).toOption.map set.compile.classify = some category := by
  unfold Belongs
  cases Operands.ofText text with
  | error e => simp [Except.toOption]
  | ok o => simp [Except.toOption]

instance (text : String) : Decidable (set.Belongs category text) :=
  decidable_of_iff _ belongs_iff.symm

/-! ### Samples -/

theorem mismatch?_eq_none_iff {sample : Sample} :
    mismatch? set.compile category sample = none ↔ set.Belongs category sample.render := by
  rw [belongs_iff]
  show (if sample.operands.toOption.map set.compile.classify = some category then none
    else some _) = none ↔ sample.operands.toOption.map set.compile.classify = some category
  rw [ite_eq_left_iff]
  simp

theorem mem_expandSamples_iff {text : String} {places : Nat} {sample : Sample} :
    sample ∈ (expandSamples text places).samples ↔
      ∃ token ∈ sampleTokens text.toList, sample ∈ (expandToken places token).samples := by
  unfold expandSamples
  simp [List.mem_flatMap]

theorem mem_listedTokens_iff : (category, token) ∈ set.listedTokens ↔
    ∃ text, (category, text) ∈ set.rules ∧
      ∃ samples ∈ (Rule.read text).sampleTexts, token ∈ sampleTokens samples.toList := by
  unfold listedTokens
  simp [List.mem_flatMap]

/-- There is no mismatch if every sample of every listed token is a number of its category. -/
theorem verify_eq_nil_iff_samples :
    set.verify = [] ↔ ∀ category token, (category, token) ∈ set.listedTokens →
      ∀ sample ∈ (expandToken 0 token).samples, set.Belongs category sample.render := by
  unfold verify samplesOf
  simp only [List.flatMap_eq_nil_iff, List.filterMap_eq_nil_iff, mismatch?_eq_none_iff,
    List.forall_mem_map, mem_expandSamples_iff, mem_listedTokens_iff]
  constructor
  · rintro h category token ⟨text, hrule, samples, hsection, htoken⟩ sample hsample
    exact h (category, text) hrule samples hsection sample ⟨token, htoken, hsample⟩
  · rintro h ⟨category, text⟩ hrule samples hsection sample ⟨token, htoken, hsample⟩
    exact h category token ⟨text, hrule, samples, hsection, htoken⟩ sample hsample

/-! ### Tokens -/

/-- The samples of a token that is taken as it is written are judged as the token is. -/
theorem forall_samples_iff (h : Sample.AsWritten token) :
    (∀ sample ∈ (expandToken 0 token).samples, set.Belongs category sample.render) ↔
      (isEllipsis token = false → set.Belongs category (String.ofList token)) := by
  cases hellipsis : isEllipsis token with
  | true => simp [expandToken_of_ellipsis hellipsis]
  | false =>
    obtain ⟨sample, hsamples, hoperands⟩ := expandToken_of_asWritten h hellipsis
    have hrender : Operands.ofText sample.render = Operands.ofText (String.ofList token) :=
      hoperands
    unfold Belongs
    rw [hsamples]
    simp [hrender]

theorem verify_eq_nil_iff
    (h : ∀ category token, (category, token) ∈ set.listedTokens → Sample.AsWritten token) :
    set.verify = [] ↔ ∀ category token, (category, token) ∈ set.listedTokens →
      isEllipsis token = false → set.Belongs category (String.ofList token) := by
  rw [verify_eq_nil_iff_samples]
  apply forall_congr'
  intro category
  apply forall_congr'
  intro token
  apply forall_congr'
  intro hlisted
  exact forall_samples_iff (h category token hlisted)

/-- Tokens of every kind: whole numbers, one of them the last that is exact, a compact numeral, "and
so on", and fractions, one of them with the most digits. -/
def specimen : RuleSet :=
  ⟨[(.one, "i = 1 and v = 0 @integer 1, 1c0, …"),
    (.other, " @integer 9007199254740992 @decimal 0.30, 0.0000000000000000000001")]⟩

theorem listedTokens_specimen : specimen.listedTokens =
    [(.one, ['1']), (.one, ['1', 'c', '0']), (.one, ['…']),
      (.other, "9007199254740992".toList), (.other, "0.30".toList),
      (.other, "0.0000000000000000000001".toList)] := by
  decide +kernel

theorem asWritten_specimen (category : Category) (token : List Char)
    (h : (category, token) ∈ specimen.listedTokens) : Sample.AsWritten token := by
  rw [listedTokens_specimen] at h
  simp only [List.mem_cons, Prod.mk.injEq, List.not_mem_nil, or_false] at h
  rcases h with ⟨-, rfl⟩ | ⟨-, rfl⟩ | ⟨-, rfl⟩ | ⟨-, rfl⟩ | ⟨-, rfl⟩ | ⟨-, rfl⟩
  · exact .plain (@Numeral.WritesPlain.mk ['1'] [] [] (by decide) (by decide) .none) (by decide)
  · exact .marked (by decide)
  · exact .ellipsis (by decide)
  · exact .plain (@Numeral.WritesPlain.mk "9007199254740992".toList [] [] (by decide) (by decide)
      .none) (by decide)
  · exact .plain (@Numeral.WritesPlain.mk ['0'] _ _ (by decide) (by decide)
      (@Numeral.WritesFraction.some "30".toList (by decide) (by decide))) (by decide)
  · exact .plain (@Numeral.WritesPlain.mk ['0'] _ _ (by decide) (by decide)
      (@Numeral.WritesFraction.some "0000000000000000000001".toList (by decide) (by decide)))
      (by decide)

theorem verify_eq_nil_iff_specimen :
    (∀ category token, (category, token) ∈ specimen.listedTokens → Sample.AsWritten token) ∧
      specimen.verify = [] ∧ ∀ category token, (category, token) ∈ specimen.listedTokens →
        isEllipsis token = false → specimen.Belongs category (String.ofList token) := by
  have hnone : specimen.verify = [] := by decide +kernel
  exact ⟨asWritten_specimen, hnone, (verify_eq_nil_iff asWritten_specimen).1 hnone⟩

/-- The first whole number that is not exact. -/
def roundedSpecimen : RuleSet := ⟨[(.one, "i % 10 = 3 @integer 9007199254740993")]⟩

/-- The first whole number that does not fit a word. -/
def droppedSpecimen : RuleSet := ⟨[(.one, "i = 1 @integer 18446744073709551616")]⟩

/-- Of tokens that are not taken as they are written, verification finds a mismatch where there is
none, and none where there is one. -/
theorem verify_misjudges :
    (roundedSpecimen.verify ≠ [] ∧ ∀ listed ∈ roundedSpecimen.listedTokens,
      roundedSpecimen.Belongs listed.1 (String.ofList listed.2)) ∧
    (droppedSpecimen.verify = [] ∧ ∃ listed ∈ droppedSpecimen.listedTokens,
      ¬droppedSpecimen.Belongs listed.1 (String.ofList listed.2)) := by
  decide +kernel

end PluralForms.RuleSet
