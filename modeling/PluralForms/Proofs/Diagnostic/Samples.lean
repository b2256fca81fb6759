import Mathlib.Data.List.PeriodicityLemma
import PluralForms.Diagnostic
import PluralForms.Proofs.Diagnostic.Symbols
import PluralForms.Proofs.Rule.SampleSections
import PluralForms.Proofs.Sample.Rendered
import PluralForms.Proofs.Text.Occurrences
import PluralForms.Proofs.Verification.Samples

/-!
# Where the sample of a mismatch is shown

A mismatch is shown where its sample stands apart in the text of the rule, behind the condition:
with no digit, point or tilde next to it. A token that is the sample always stands apart, so if
there is one there is a label. The converse needs more, since a sample also stands apart inside of
longer tokens, such as `1` in `1c6` and in `1 ~ 5`, and in sections that do not count:

    labels_of_verify : a listed sample has a label, and a label is a token that is the sample,
      unless a section does not count, the sample begins with a small letter, or a longer token has
      it apart
-/

namespace PluralForms

open Text

/-- No numeral goes on in front of the stretch or behind it. -/
def Text.Stretch.IsApart (s : Stretch) : Prop :=
  s.front.getLast?.any isNumeralChar = false ∧ s.back.head?.any isNumeralChar = false

instance (s : Stretch) : Decidable s.IsApart := inferInstanceAs (Decidable (_ ∧ _))

/-! ### What the search finds -/

section Search

variable {o : Stretch} {sample cs : List Char}

theorem isolates_place_iff (o : Stretch) : o.place.isolates o.word = true ↔ o.IsApart := by
  have hrest : o.place.rest.drop o.word.length = o.back := List.drop_left
  unfold Place.isolates Stretch.IsApart
  rw [hrest, Bool.and_eq_true, Bool.not_eq_true', Bool.not_eq_true']
  rfl

/-- The first mark stands in front of what has a mark in front of it. -/
theorem byteLength_lt_iff {condition behind : List Char} (hcondition : '@' ∉ condition)
    (h : condition ++ '@' :: behind = o.text) :
    byteLength condition < byteLength o.front ↔ '@' ∈ o.front := by
  constructor
  · intro hlt
    by_contra hfront
    rw [← List.nil_append o.text] at h
    rcases Stretch.exists_of_append_mark h hfront with ⟨left, hleft, -⟩ | ⟨right, hright, -⟩
    · rw [hleft, List.nil_append, byteLength_append] at hlt
      omega
    · exact absurd hright.symm (List.append_ne_nil_of_right_ne_nil _ (List.cons_ne_nil _ _))
  · intro hmem
    rcases List.append_eq_append_iff.1 h with ⟨right, hfront, -⟩ | ⟨left, rfl, -⟩
    · obtain ⟨c, right, rfl⟩ : ∃ c rest, right = c :: rest := by
        apply List.exists_cons_of_ne_nil
        rintro rfl
        rw [hfront, List.append_nil] at hmem
        exact hcondition hmem
      have hpos : 0 < c.utf8Size := c.utf8Size_pos
      rw [hfront, byteLength_append, byteLength_cons]
      omega
    · exact absurd (List.mem_append_left left hmem) hcondition

/-- What is shown stands apart, with a mark somewhere in front of it. -/
theorem exists_of_sampleSpan {span : Span} (h : sampleSpan sample cs = some span) :
    ∃ o : Stretch, o.text = cs ∧ o.word = sample ∧ '@' ∈ o.front ∧ o.IsApart ∧ o.span = span := by
  by_cases hmark : '@' ∈ cs
  · obtain ⟨condition, behind, hcs, hcondition⟩ := List.eq_append_cons_of_mem hmark
    unfold sampleSpan at h
    rw [hcs, cutAt_append hcondition, Option.bind_some, ← hcs] at h
    obtain ⟨p, hfind, rfl⟩ := Option.map_eq_some_iff.1 h
    have hp := List.find?_some hfind
    obtain ⟨o, rfl, rfl, rfl⟩ := exists_of_mem_occurrences (List.mem_of_find?_eq_some hfind)
    rw [Bool.and_eq_true, decide_eq_true_iff, isolates_place_iff] at hp
    exact ⟨o, rfl, rfl, (byteLength_lt_iff hcondition hcs.symm).1 hp.1, hp.2, rfl⟩
  · unfold sampleSpan at h
    rw [cutAt_eq_none hmark] at h
    cases h

theorem isSome_sampleSpan (hmem : o.place ∈ occurrences o.word o.text) (hmark : '@' ∈ o.front)
    (h : o.IsApart) : (sampleSpan o.word o.text).isSome = true := by
  have htext : '@' ∈ o.text := List.mem_append_left _ hmark
  obtain ⟨condition, behind, hcs, hcondition⟩ := List.eq_append_cons_of_mem htext
  unfold sampleSpan
  rw [hcs, cutAt_append hcondition, Option.bind_some, Option.isSome_map, ← hcs, List.find?_isSome]
  refine ⟨o.place, hmem, ?_⟩
  rw [Bool.and_eq_true, decide_eq_true_iff, isolates_place_iff]
  exact ⟨(byteLength_lt_iff hcondition hcs.symm).2 hmark, h⟩

end Search

/-! ### The ends of a token -/

theorem not_isNumeralChar_of_isBlank {c : Char} (h : isBlank c = true) :
    isNumeralChar c = false := by
  cases hnumeral : isNumeralChar c with
  | false => rfl
  | true =>
    have hprinted : 0x21 ≤ c.toNat ∧ c.toNat ≤ 0x7E := by
      simp only [isNumeralChar, Bool.or_eq_true, beq_iff_eq] at hnumeral
      rcases hnumeral with (hdigit | rfl) | rfl
      · have hrange : 48 ≤ c.toNat ∧ c.toNat ≤ 57 := Char.isDigit_iff_toNat.1 hdigit
        omega
      · decide
      · decide
    rw [not_isBlank_of_printed hprinted] at h
    exact absurd h Bool.false_ne_true

/-- A mark opens the stretch, perhaps with blanks and the name of a section behind it, and nothing
of a numeral stands behind the stretch. -/
structure Text.Stretch.Delimited (s : Stretch) : Prop where
  marked : '@' ∈ s.front
  opened : ∃ before mark gap, s.front = before ++ mark :: gap ∧ (mark = ',' ∨ mark = '@') ∧
    ∀ c ∈ gap, isNumeralChar c = false
  closed : s.back.head?.any isNumeralChar = false

section Delimited

variable {s t : Stretch}

/-- A gap may go on. -/
theorem Text.Stretch.Delimited.extend (h : s.Delimited) (gap' : List Char)
    (hfront : t.front = s.front ++ gap') (hgap' : ∀ c ∈ gap', isNumeralChar c = false)
    (hclosed : t.back.head?.any isNumeralChar = false) : t.Delimited := by
  obtain ⟨before, mark, gap, hopened, hmark, hgap⟩ := h.opened
  refine ⟨?_, ⟨before, mark, gap ++ gap', ?_, hmark, ?_⟩, hclosed⟩
  · rw [hfront]
    exact List.mem_append_left gap' h.marked
  · rw [hfront, hopened]
    simp
  · intro c hc
    rcases List.mem_append.1 hc with hc | hc
    · exact hgap c hc
    · exact hgap' c hc

/-- Without a comma or a mark, what stands right in front of the stretch belongs to the gap. -/
theorem Text.Stretch.Delimited.shorten (h : s.Delimited) {u : List Char}
    (hfront : t.front ++ u = s.front) (hcomma : ',' ∉ u) (hat : '@' ∉ u)
    (hclosed : (∀ c ∈ u, isNumeralChar c = false) → t.back.head?.any isNumeralChar = false) :
    t.Delimited := by
  obtain ⟨before, mark, gap, hopened, hmark, hgap⟩ := h.opened
  rw [← hfront] at hopened
  rcases Stretch.exists_of_append_eq_cons hopened with ⟨left, hleft, rfl⟩ | ⟨right, -, rfl⟩
  · refine ⟨?_, ⟨before, mark, left, hleft, hmark, ?_⟩, ?_⟩
    · have hmarked := h.marked
      rw [← hfront] at hmarked
      exact (List.mem_append.1 hmarked).resolve_right hat
    · intro c hc
      exact hgap c (List.mem_append_left u hc)
    · apply hclosed
      intro c hc
      exact hgap c (List.mem_append_right left hc)
  · -- the mark that opens the stretch is no part of `u`
    have hmem : mark ∈ right ++ mark :: gap := List.mem_append_right right List.mem_cons_self
    rcases hmark with rfl | rfl
    · exact absurd hmem hcomma
    · exact absurd hmem hat

theorem Text.Stretch.Delimited.trim (h : s.Delimited) : s.trim.Delimited := by
  have hleading : ∀ c ∈ leadingBlanks s.word, isNumeralChar c = false := fun c hc =>
    not_isNumeralChar_of_isBlank (run_takeWhile s.word c hc)
  refine h.extend _ rfl hleading ?_
  show (Stretch.trailingBlanks s.word ++ s.back).head?.any isNumeralChar = false
  have htrailing := Stretch.isBlankRun_trailingBlanks s.word
  generalize Stretch.trailingBlanks s.word = run at htrailing ⊢
  cases run with
  | nil => exact h.closed
  | cons c run => exact not_isNumeralChar_of_isBlank (htrailing c List.mem_cons_self)

theorem Text.Stretch.Delimited.skip (h : s.Delimited) {name : List Char} (hname : name <+: s.word)
    (hletters : ∀ c ∈ name, isNumeralChar c = false) : (s.skip name).Delimited := by
  obtain ⟨rest, hrest⟩ := hname
  refine h.extend name ?_ hletters h.closed
  show s.front ++ s.word.take name.length = _
  rw [← hrest, List.take_left]

theorem Text.Stretch.Delimited.splitOn (h : s.Delimited) (ht : t ∈ s.splitOn [',']) :
    t.Delimited := by
  obtain ⟨hfront, hback⟩ := Stretch.ends_of_mem_splitOn ht
  have hwithin : t.Within s := Stretch.within_of_mem_splitOn (by decide) ht
  have hclosed : t.back.head?.any isNumeralChar = false := by
    rcases hback with hback | ⟨behind, hback⟩
    · rw [hback]
      exact h.closed
    · rw [hback]
      rfl
  rcases hfront with hfront | ⟨before, hfront⟩
  · exact h.extend [] (by simpa using hfront) (fun _ hc => absurd hc List.not_mem_nil)
      hclosed
  · obtain ⟨between, -, hbetween, -, -⟩ := hwithin
    refine ⟨?_, ⟨before, ',', [], hfront, Or.inl rfl, fun _ hc => absurd hc List.not_mem_nil⟩,
      hclosed⟩
    rw [hbetween]
    exact List.mem_append_left between h.marked

end Delimited

namespace Rule

variable {text : String} {sec samples token : Stretch}

theorem mem_sectionStretches_iff : sec ∈ sectionStretches text ↔
    (∃ piece ∈ ((Stretch.whole text.toList).splitOn ['@']).tail, piece.trim = sec) ∧
      sec.word ≠ [] := by
  unfold sectionStretches
  rw [List.mem_filter, List.mem_map, decide_eq_true_iff]

theorem delimited_of_mem_sectionStretches (h : sec ∈ sectionStretches text) :
    sec.Delimited := by
  obtain ⟨⟨piece, hpiece, rfl⟩, -⟩ := mem_sectionStretches_iff.1 h
  obtain ⟨first, rest, hsplit, -, -, hrest⟩ :=
    Stretch.exists_splitOn_eq_cons '@' (Stretch.whole text.toList)
  have hmem : piece ∈ (Stretch.whole text.toList).splitOn ['@'] := List.mem_of_mem_tail hpiece
  rw [hsplit, List.tail_cons] at hpiece
  obtain ⟨before, hbefore⟩ := hrest piece hpiece
  have hpiece : piece.Delimited := by
    refine ⟨by simp [hbefore], ⟨before, '@', [], hbefore, Or.inr rfl,
      fun _ hc => absurd hc List.not_mem_nil⟩, ?_⟩
    rcases (Stretch.ends_of_mem_splitOn hmem).2 with hback | ⟨behind, hback⟩ <;> rw [hback] <;> rfl
  exact hpiece.trim

/-- The lists that count are lists of sections. -/
theorem exists_of_mem_sampleStretches (h : samples ∈ sampleStretches text) :
    ∃ sec ∈ sectionStretches text, ∃ name ∈ ["integer".toList, "decimal".toList],
      samplesNamed? name sec = some samples := by
  have hlast : ∀ name, samples ∈
      ((sectionStretches text).filterMap (samplesNamed? name)).getLast?.toList →
        ∃ sec ∈ sectionStretches text, samplesNamed? name sec = some samples := by
    intro name hmem
    exact List.mem_filterMap.1 (List.mem_of_getLast? (Option.mem_toList.1 hmem))
  rcases List.mem_append.1 h with h | h
  · obtain ⟨sec, hsec, hsamples⟩ := hlast _ h
    exact ⟨sec, hsec, _, by simp, hsamples⟩
  · obtain ⟨sec, hsec, hsamples⟩ := hlast _ h
    exact ⟨sec, hsec, _, by simp, hsamples⟩

theorem samplesNamed?_eq_some_iff {name : List Char} :
    samplesNamed? name sec = some samples ↔ name <+: sec.word ∧ (sec.skip name).trim = samples := by
  unfold samplesNamed? dropLead
  rw [← List.isPrefixOf_iff_prefix]
  split <;> simp_all

theorem mem_tokenStretches_iff : token ∈ tokenStretches text ↔
    ∃ samples ∈ sampleStretches text, (∃ piece ∈ samples.splitOn [','], piece.trim = token) ∧
      token.word ≠ [] := by
  unfold tokenStretches
  simp only [List.mem_flatMap, List.mem_filter, List.mem_map, decide_eq_true_iff]

theorem delimited_of_mem_tokenStretches (h : token ∈ tokenStretches text) : token.Delimited := by
  obtain ⟨samples, hsamples, ⟨piece, hpiece, rfl⟩, -⟩ := mem_tokenStretches_iff.1 h
  obtain ⟨sec, hsec, name, hname, hnamed⟩ := exists_of_mem_sampleStretches hsamples
  obtain ⟨hlead, rfl⟩ := samplesNamed?_eq_some_iff.1 hnamed
  have hletters : ∀ name ∈ ["integer".toList, "decimal".toList], ∀ c ∈ name,
      isNumeralChar c = false := by simp [isNumeralChar]
  have hlist := (delimited_of_mem_sectionStretches hsec).skip hlead (hletters name hname)
  exact (hlist.trim.splitOn hpiece).trim

theorem text_of_mem_tokenStretches (h : token ∈ tokenStretches text) :
    token.text = text.toList := by
  obtain ⟨samples, hsamples, ⟨piece, hpiece, rfl⟩, -⟩ := mem_tokenStretches_iff.1 h
  obtain ⟨sec, hsec, name, -, hnamed⟩ := exists_of_mem_sampleStretches hsamples
  obtain ⟨-, rfl⟩ := samplesNamed?_eq_some_iff.1 hnamed
  obtain ⟨⟨part, hpart, rfl⟩, -⟩ := mem_sectionStretches_iff.1 hsec
  have hlist : piece.Within (part.trim.skip name).trim :=
    Stretch.within_of_mem_splitOn (by decide) hpiece
  have hpart' : part.Within (Stretch.whole text.toList) :=
    Stretch.within_of_mem_splitOn (by decide) (List.mem_of_mem_tail hpart)
  have htoken := ((piece.trim_within.trans hlist).trans (Stretch.trim_within _)).trans
    (Stretch.skip_within name _)
  exact ((htoken.trans part.trim_within).trans hpart').text_eq.trans
    (Stretch.text_whole text.toList)

end Rule

/-! ### Tokens as words -/

/-- What is between the commas and marks of a list, without the blanks around it. -/
structure IsToken (cs : List Char) : Prop where
  ne_nil : cs ≠ []
  trimmed : Trimmed cs
  comma : ',' ∉ cs
  mark : '@' ∉ cs

theorem isToken_of_mem_sampleTokens {samples : String} {token : List Char}
    (hsamples : '@' ∉ samples.toList) (h : token ∈ sampleTokens samples.toList) :
    IsToken token := by
  unfold sampleTokens at h
  obtain ⟨hmem, hne⟩ := List.mem_filter.1 h
  obtain ⟨piece, hpiece, rfl⟩ := List.mem_map.1 hmem
  refine ⟨of_decide_eq_true hne, trimmed_trim piece, ?_, ?_⟩
  · exact fun hc => of_mem_splitOn_mark hpiece (mem_of_mem_trim hc)
  · intro hc
    have hpart := infix_of_mem_splitOn (List.cons_ne_nil ',' []) hpiece
    exact hsamples (hpart.subset (mem_of_mem_trim hc))

theorem isToken_decimalText (n places : Nat) :
    IsToken (Numeral.decimalText n places) ∧
      ∀ c ∈ (Numeral.decimalText n places).head?, c.isLower = false := by
  have hspells := spells_of_writesPlain (Numeral.writesPlain_decimalText places n)
  have hblank : ∀ c ∈ Numeral.decimalText n places, isBlank c = false := by
    intro c hc
    rcases mem_of_spells hspells hc with hdigit | rfl
    · exact not_isBlank_of_isDigit hdigit
    · decide
  have hlower : ∀ c ∈ Numeral.decimalText n places, c.isLower = false := by
    intro c hc
    rcases mem_of_spells hspells hc with hdigit | rfl
    · have hdigits : IsDigits [c] := by simpa [IsDigits] using hdigit
      exact hasNoLetter_of_isDigits hdigits c List.mem_cons_self
    · decide
  obtain ⟨d, hd, -⟩ := exists_digit_of_spells hspells
  refine ⟨⟨List.ne_nil_of_mem hd, ?_, ?_, ?_⟩, fun c hc => hlower c (List.mem_of_mem_head? hc)⟩
  · exact ⟨fun c hc => hblank c (List.mem_of_mem_head? hc),
      fun c hc => hblank c (List.mem_of_mem_getLast? hc)⟩
  · exact not_mem_of_spells hspells rfl (by decide)
  · exact not_mem_of_spells hspells rfl (by decide)

namespace RuleSet

variable {set : RuleSet} {m : Mismatch}

theorem exists_of_mem_verify (h : m ∈ set.verify) : ∃ text samples token,
    (m.expected, text) ∈ set.rules ∧ samples ∈ (Rule.read text).sampleTexts ∧
      token ∈ sampleTokens samples.toList ∧ m.sample ∈ (expandToken 0 token).samples := by
  unfold verify samplesOf at h
  obtain ⟨⟨category, text⟩, hrule, h⟩ := List.mem_flatMap.1 h
  obtain ⟨expansion, hexpansion, h⟩ := List.mem_flatMap.1 h
  obtain ⟨samples, hsamples, rfl⟩ := List.mem_map.1 hexpansion
  obtain ⟨sample, hsample, hmismatch⟩ := List.mem_filterMap.1 h
  obtain ⟨token, htoken, hmem⟩ := mem_expandSamples_iff.1 hsample
  unfold mismatch? at hmismatch
  dsimp only at hmismatch
  split at hmismatch
  · cases hmismatch
  · cases hmismatch
    exact ⟨text, samples, token, hrule, hsamples, htoken, hmem⟩

/-- The sample of a mismatch is a token, and if it is a number it begins with no letter. -/
theorem isToken_of_mem_verify (h : m ∈ set.verify) :
    IsToken m.sample.render.toList ∧
      ((∀ numeral, m.sample = .compact numeral → ∀ c ∈ numeral.toList.head?, c.isLower = false) →
        ∀ c ∈ m.sample.render.toList.head?, c.isLower = false) := by
  obtain ⟨text, samples, token, -, hsamples, htoken, hmem⟩ := exists_of_mem_verify h
  rcases mem_expandToken hmem with ⟨scaled, places, hfits, hscaled⟩ | hcompact
  · obtain ⟨n, hrender⟩ := Sample.exists_render_ofScaled hfits places
    obtain ⟨htoken, hfirst⟩ := isToken_decimalText n places
    rw [hscaled, hrender, String.toList_ofList]
    exact ⟨htoken, fun _ => hfirst⟩
  · have hrender : m.sample.render = String.ofList token := by
      rw [hcompact]
      rfl
    rw [hrender]
    refine ⟨?_, fun hnumeral => hnumeral _ hcompact⟩
    rw [String.toList_ofList]
    exact isToken_of_mem_sampleTokens (Rule.isSamples_read text samples hsamples).unmarked htoken

end RuleSet

/-! ### A listed sample is shown -/

theorem mem_take_of_hasPeriod {word : List Char} {p : Nat} (hp : 0 < p) (h : word.HasPeriod p) :
    ∀ c ∈ word, c ∈ word.take p := by
  intro c hc
  obtain ⟨i, hi, rfl⟩ := List.mem_iff_getElem.1 hc
  have hsame := h.getElem?_mod p i word hi
  apply List.mem_of_getElem? (i := i % p)
  rw [List.getElem?_take_of_lt (Nat.mod_lt i hp), hsame, List.getElem?_eq_getElem hi]

/-- If two occurrences of a word overlap, the word is made of characters that stand in front of the
second one, and what follows the first one begins with such a character. -/
theorem head_mem_of_overlap {word u back back' : List Char}
    (h : word ++ back = u ++ (word ++ back')) (hne : u ≠ []) (hlt : u.length < word.length) :
    ∀ c ∈ back.head?, c ∈ u := by
  obtain ⟨v, rfl⟩ : u <+: word :=
    List.prefix_of_prefix_length_le ⟨_, rfl⟩ ⟨_, h⟩ (Nat.le_of_lt hlt)
  have hword : ∀ c ∈ u ++ v, c ∈ u := by
    have hperiod : (u ++ v).HasPeriod u.length := by
      unfold List.HasPeriod
      rw [List.take_left]
      refine List.prefix_of_prefix_length_le ⟨back, h⟩ ⟨back', List.append_assoc _ _ _⟩ ?_
      exact (List.suffix_append u (u ++ v)).length_le
    intro c hc
    have hmem := mem_take_of_hasPeriod (List.length_pos_of_ne_nil hne) hperiod c hc
    rwa [List.take_left] at hmem
  -- the first occurrence ends inside the second one, and the rest of that follows it
  have hrest : v ++ back = u ++ v ++ back' := by
    rw [List.append_assoc] at h
    exact List.append_cancel_left h
  intro c hc
  rcases List.append_eq_append_iff.1 hrest with ⟨as, has, rfl⟩ | ⟨bs, hlong, -⟩
  · have hasne : as ≠ [] := by
      rintro rfl
      rw [List.append_nil, List.append_left_eq_self] at has
      exact hne has
    rw [List.head?_append_of_ne_nil _ hasne] at hc
    apply hword
    rw [has]
    exact List.mem_append_right v (List.mem_of_mem_head? hc)
  · have hlength := congrArg List.length hlong
    rw [List.length_append, List.length_append] at hlength
    have hpos := List.length_pos_of_ne_nil hne
    omega

section Overlap

variable {o token : Stretch}

/-- What opens a stretch is no part of a numeral, and neither is what closes it. -/
theorem Text.Stretch.Delimited.isApart (h : o.Delimited) : o.IsApart := by
  refine ⟨?_, h.closed⟩
  obtain ⟨before, mark, gap, hopened, hmark, hgap⟩ := h.opened
  have hall : ∀ c ∈ mark :: gap, isNumeralChar c = false := by
    refine List.forall_mem_cons.2 ⟨?_, hgap⟩
    rcases hmark with rfl | rfl <;> decide
  rw [hopened, List.getLast?_append_of_ne_nil _ (List.cons_ne_nil mark gap),
    List.getLast?_eq_some_getLast (List.cons_ne_nil mark gap)]
  exact hall _ (List.getLast_mem _)

/-- An occurrence of a token that reaches into the token is delimited as the token is: it begins in
the gap in front of it, and so the token has characters of the gap only. -/
theorem delimited_of_overlap (htoken : token.Delimited) (hword : IsToken token.word)
    (htext : o.text = token.text) (ho : o.word = token.word)
    (hle : o.front.length ≤ token.front.length)
    (hlt : token.front.length < o.front.length + token.word.length) : o.Delimited := by
  obtain ⟨u, hu⟩ : o.front <+: token.front :=
    List.prefix_of_prefix_length_le ⟨_, rfl⟩ ⟨_, htext.symm⟩ hle
  by_cases hnil : u = []
  · have hlength : o.front.length = token.front.length := by rw [← hu, hnil, List.append_nil]
    rwa [Stretch.eq_of_length_eq htext ho hlength]
  have hrest : token.word ++ o.back = u ++ (token.word ++ token.back) := by
    unfold Stretch.text at htext
    rw [ho, ← hu, List.append_assoc] at htext
    exact List.append_cancel_left htext
  have hshort : u.length < token.word.length := by
    rw [← hu, List.length_append] at hlt
    omega
  have hpart : u <+: token.word :=
    List.prefix_of_prefix_length_le ⟨_, rfl⟩ ⟨_, hrest⟩ (Nat.le_of_lt hshort)
  apply htoken.shorten hu
  · exact fun hc => hword.comma (hpart.subset hc)
  · exact fun hc => hword.mark (hpart.subset hc)
  · intro hgap
    cases hhead : o.back.head? with
    | none => rfl
    | some c => exact hgap c (head_mem_of_overlap hrest hnil hshort c hhead)

theorem isSome_sampleSpan_of_mem_tokenStretches {text : String}
    (h : token ∈ Rule.tokenStretches text) (hword : IsToken token.word) :
    (sampleSpan token.word text.toList).isSome = true := by
  have htext := Rule.text_of_mem_tokenStretches h
  obtain ⟨o, hotext, ho, hle, hlt, hmem⟩ := exists_mem_occurrences hword.ne_nil
  have hdelimited : o.Delimited :=
    delimited_of_overlap (Rule.delimited_of_mem_tokenStretches h) hword hotext ho hle hlt
  rw [← ho, ← hotext] at hmem
  rw [← ho, ← htext, ← hotext]
  exact isSome_sampleSpan hmem hdelimited.marked hdelimited.isApart

end Overlap

/-! ### What is shown is a token -/

section Shown

variable {o token : Stretch} {text : String} {sample : List Char}

/-- Does a token have the sample in it, apart from other numerals? -/
def hasApart (sample token : List Char) : Bool :=
  ((places token).find? fun p => sample.isPrefixOf p.rest && p.isolates sample).isSome

/-- What stands apart in the text stands apart in its token. -/
theorem hasApart_of_within (h : o.Within token) (hapart : o.IsApart) :
    hasApart o.word token.word = true := by
  obtain ⟨before, behind, hfront, hword, hback⟩ := h
  let inside : Stretch := ⟨before, o.word, behind⟩
  have hinside : inside.IsApart := by
    obtain ⟨hstart, hend⟩ := hapart
    constructor
    · cases before with
      | nil => rfl
      | cons c before =>
        rwa [hfront, List.getLast?_append_of_ne_nil _ (List.cons_ne_nil c before)] at hstart
    · cases behind with
      | nil => rfl
      | cons c behind => rwa [hback] at hend
  have hsearch : ∀ s : Stretch, s.word = o.word →
      ((o.word.isPrefixOf s.place.rest && s.place.isolates o.word) = true ↔ s.IsApart) := by
    intro s hs
    have hbegins : s.word.isPrefixOf s.place.rest = true :=
      List.isPrefixOf_iff_prefix.2 (List.prefix_append s.word s.back)
    rw [← hs, hbegins, Bool.true_and]
    exact isolates_place_iff s
  have htext : inside.text = token.word := hword.symm
  exact find?_places_isSome hsearch htext rfl hinside

/-- What is shown stands in a section, since a mark stands in front of it. -/
theorem Rule.exists_sectionStretches_within (htext : o.text = text.toList) (hmark : '@' ∈ o.front)
    (ho : IsToken o.word) : ∃ sec ∈ sectionStretches text, o.Within sec := by
  have hwhole : o.Within (Stretch.whole text.toList) :=
    ⟨o.front, o.back, rfl, htext.symm, (List.append_nil _).symm⟩
  obtain ⟨piece, hpiece, hwithin⟩ := hwhole.exists_splitOn ho.mark
  have hbehind : piece ∈ ((Stretch.whole text.toList).splitOn ['@']).tail := by
    obtain ⟨first, rest, hsplit, hfirst, hnomark, -⟩ :=
      Stretch.exists_splitOn_eq_cons '@' (Stretch.whole text.toList)
    rw [hsplit] at hpiece ⊢
    rcases List.mem_cons.1 hpiece with rfl | hpiece
    · -- the first piece is the condition, which has no mark
      obtain ⟨before, behind, hfront, hword, -⟩ := hwithin
      rw [hfront, hfirst] at hmark
      refine absurd ?_ hnomark
      rw [hword]
      exact List.mem_append_left _ hmark
    · exact hpiece
  have htrim := hwithin.trim ho.ne_nil ho.trimmed
  exact ⟨piece.trim,
    mem_sectionStretches_iff.2 ⟨⟨piece, hbehind, rfl⟩, htrim.word_ne_nil ho.ne_nil⟩,
    htrim⟩

/-- If every section counts, what stands behind the first mark stands in one of the tokens. -/
theorem Rule.exists_tokenStretches_within (hcounts : EverySectionCounts text)
    (htext : o.text = text.toList) (hmark : '@' ∈ o.front) (ho : IsToken o.word)
    (hfirst : ∀ c ∈ o.word.head?, c.isLower = false) :
    ∃ token ∈ tokenStretches text, o.Within token := by
  obtain ⟨sec, hsec, hwithin⟩ := exists_sectionStretches_within htext hmark ho
  obtain ⟨name, hname, samples, hsamples, hnamed⟩ := hcounts sec hsec
  obtain ⟨hlead, rfl⟩ := samplesNamed?_eq_some_iff.1 hnamed
  have hlower : ∀ name ∈ ["integer".toList, "decimal".toList], ∀ c ∈ name,
      c.isLower = true := by simp [isLower_iff]
  have hlist := hwithin.skip ho.ne_nil hlead fun c hc hmem => by
    have hsmall : c.isLower = true := hlower name hname c hmem
    rw [hfirst c hc] at hsmall
    exact Bool.false_ne_true hsmall
  obtain ⟨piece, hpiece, hin⟩ := (hlist.trim ho.ne_nil ho.trimmed).exists_splitOn ho.comma
  have htrim := hin.trim ho.ne_nil ho.trimmed
  exact ⟨piece.trim, mem_tokenStretches_iff.2
    ⟨_, hsamples, ⟨piece, hpiece, rfl⟩, htrim.word_ne_nil ho.ne_nil⟩, htrim⟩

end Shown

namespace RuleSet

/-- A sample of a mismatch that is a token of the rule has a label. If every section of the rule
counts and the sample does not begin with a small letter, as no number does, then a label lies in
one of the tokens, and it is that token unless some longer token has the sample apart. -/
theorem labels_of_verify {set : RuleSet} {m : Mismatch} (h : m ∈ set.verify) (language : String)
    (rule : String) :
    (m.sample.render.toList ∈ (Rule.read rule).tokens →
      (Diagnostic.ofMismatch language m rule).span.isSome = true) ∧
    ∀ span, (Diagnostic.ofMismatch language m rule).span = some span →
      Rule.EverySectionCounts rule →
      (∀ numeral, m.sample = .compact numeral → ∀ c ∈ numeral.toList.head?, c.isLower = false) →
      ∃ token ∈ Rule.tokenStretches rule, ∃ o : Stretch, o.Within token ∧
        o.text = rule.toList ∧ o.word = m.sample.render.toList ∧ o.span = span ∧
        ((∀ longer ∈ (Rule.read rule).tokens, hasApart m.sample.render.toList longer = true →
          longer = m.sample.render.toList) → o = token) := by
  obtain ⟨hsample, hnumber⟩ := isToken_of_mem_verify h
  constructor
  · intro hlisted
    rw [← Rule.map_word_tokenStretches] at hlisted
    obtain ⟨token, htoken, hword⟩ := List.mem_map.1 hlisted
    show (sampleSpan m.sample.render.toList rule.toList).isSome = true
    rw [← hword] at hsample ⊢
    exact isSome_sampleSpan_of_mem_tokenStretches htoken hsample
  · intro span hspan hcounts hcompact
    obtain ⟨o, htext, hword, hmark, hapart, rfl⟩ := exists_of_sampleSpan hspan
    have hfirst := hnumber hcompact
    rw [← hword] at hsample hfirst ⊢
    obtain ⟨token, htoken, hwithin⟩ :=
      Rule.exists_tokenStretches_within hcounts htext hmark hsample hfirst
    refine ⟨token, htoken, o, hwithin, htext, rfl, rfl, fun hwhole => ?_⟩
    have hlisted : token.word ∈ (Rule.read rule).tokens := by
      rw [← Rule.map_word_tokenStretches]
      exact List.mem_map_of_mem htoken
    exact hwithin.eq_of_word_eq (hwhole _ hlisted (hasApart_of_within hwithin hapart)).symm

/-- A rule with a sample that is part of another one, as a word, but not apart. -/
def listed : RuleSet := ⟨[(.one, "i = 5 @integer 15, 1 @decimal 1.5")]⟩

theorem labels_of_verify_listed :
    ⟨.one, some .other, .integer 1⟩ ∈ listed.verify ∧
    ∃ span, (Diagnostic.ofMismatch "xx" ⟨.one, some .other, .integer 1⟩
        "i = 5 @integer 15, 1 @decimal 1.5").span = some span ∧
      ∃ token ∈ Rule.tokenStretches "i = 5 @integer 15, 1 @decimal 1.5",
        token.word = ['1'] ∧ token.span = span := by
  have hmem : ⟨.one, some .other, .integer 1⟩ ∈ listed.verify := by decide +kernel
  obtain ⟨hshown, hexact⟩ := labels_of_verify hmem "xx" "i = 5 @integer 15, 1 @decimal 1.5"
  obtain ⟨span, hspan⟩ := Option.isSome_iff_exists.1 (hshown (by decide +kernel))
  obtain ⟨token, htoken, o, -, -, hword, rfl, hwhole⟩ :=
    hexact span hspan (by decide +kernel) (fun numeral hnumeral => nomatch hnumeral)
  obtain rfl : o = token := hwhole (by decide +kernel)
  have hrender : (Sample.integer 1).render.toList = ['1'] := by decide +kernel
  exact ⟨hmem, _, hspan, o, htoken, hword.trans hrender, rfl⟩

/-- A sample that stands apart in a compact numeral in front of it. -/
def hidden : RuleSet := ⟨[(.one, "i = 5 @integer 1c6, 1")]⟩

theorem exists_label_inside :
    ∃ m ∈ hidden.verify, ∃ span,
      (Diagnostic.ofMismatch "xx" m "i = 5 @integer 1c6, 1").span = some span ∧
      m.sample.render.toList ∈ (Rule.read "i = 5 @integer 1c6, 1").tokens ∧
      ∀ token ∈ Rule.tokenStretches "i = 5 @integer 1c6, 1", token.span ≠ span := by
  refine ⟨⟨.one, some .other, .integer 1⟩, ?_, ⟨15, 1⟩, ?_, ?_, ?_⟩
  all_goals decide +kernel

end RuleSet

end PluralForms
