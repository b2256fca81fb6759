import PluralForms.CommandLine.Outcome
import PluralForms.Proofs.Dictionary
import PluralForms.Proofs.Table.Fallback

/-!
# Languages asked for by their own name

A table keeps a key as it was given, while an identifier is trimmed, written with hyphens and rid of
empty subtags before it is looked for. So a key is among those that are tried for it just when it is
a *normal* key, which none of that changes; then it is the first of them:

    IsNormalKey.exists_fallbackChain_eq : IsNormalKey key → fallbackChain [key] = key :: shorter
    isNormalKey_of_mem_fallbackChain : key ∈ fallbackChain [key] → IsNormalKey key

* `Table.listed_found_iff` - the normal keys of a table, and no others, are found under their own
  name and can be selected by it for a check;
* `Table.listed_not_found` - a key with an underscore is listed, and not found.
-/

namespace PluralForms

/-- Nothing about the key is changed when it is asked for: no blanks around it, no underscore and no
empty subtag. -/
structure IsNormalKey (key : String) : Prop where
  trimmed : Text.Trimmed key.toList
  no_underscore : '_' ∉ key.toList
  subtag_ne_nil : ∀ tag ∈ Text.splitOn ['-'] key.toList, tag ≠ []

theorem isNormalKey_iff {key : String} :
    IsNormalKey key ↔ Text.Trimmed key.toList ∧ '_' ∉ key.toList ∧
      ∀ tag ∈ Text.splitOn ['-'] key.toList, tag ≠ [] :=
  ⟨fun h => ⟨h.trimmed, h.no_underscore, h.subtag_ne_nil⟩, fun ⟨h₁, h₂, h₃⟩ => ⟨h₁, h₂, h₃⟩⟩

instance (key : String) : Decidable (IsNormalKey key) := decidable_of_iff _ isNormalKey_iff.symm

/-! ### Joining fewer pieces -/

/-- A text that is joined from some of the pieces is part of the text that is joined from all. -/
theorem sublist_intercalate {sep : List Char} {as bs : List (List Char)} (h : as.Sublist bs) :
    (sep.intercalate as).Sublist (sep.intercalate bs) := by
  induction h with
  | slnil => exact List.Sublist.refl _
  | @cons as bs b h ih =>
    by_cases hbs : bs = []
    · subst hbs
      obtain rfl := List.sublist_nil.1 h
      simp
    · rw [List.intercalate_cons_of_ne_nil hbs]
      exact ih.trans (List.sublist_append_right _ _)
  | @cons_cons as bs b h ih =>
    by_cases has : as = []
    · subst has
      by_cases hbs : bs = []
      · simp [hbs]
      · rw [List.intercalate_singleton, List.intercalate_cons_of_ne_nil hbs, List.append_assoc]
        exact List.sublist_append_left _ _
    · have hbs : bs ≠ [] := by
        rintro rfl
        exact has (List.sublist_nil.1 h)
      rw [List.intercalate_cons_of_ne_nil has, List.intercalate_cons_of_ne_nil hbs]
      exact ih.append_left _

/-! ### Normal keys -/

section

variable {key : String}

/-- What is left of an identifier when it is written with hyphens and without blanks around it. -/
def normalText (identifier : String) : List Char :=
  (Text.trim identifier.toList).map normalizeSeparator

theorem subtags_eq (identifier : String) :
    subtags identifier = (Text.splitOn ['-'] (normalText identifier)).filter (· ≠ []) := rfl

theorem underscore_not_mem_normalText (identifier : String) : '_' ∉ normalText identifier := by
  intro hmem
  obtain ⟨c, -, hc⟩ := List.mem_map.1 hmem
  unfold normalizeSeparator at hc
  split at hc
  · exact absurd hc (by decide)
  · next hne => exact hne hc

/-- The first of the keys of an identifier is joined from all its subtags. -/
theorem exists_keysOf_eq_cons {identifier : String} (h : subtags identifier ≠ []) :
    ∃ shorter, keysOf identifier = joinSubtags (subtags identifier) :: shorter := by
  have hfirst : ∀ {tags : List (List Char)}, tags ≠ [] →
      ∃ shorter, beginnings tags = tags :: shorter := by
    intro tags hne
    induction tags with
    | nil => exact absurd rfl hne
    | cons tag tags ih =>
      by_cases htags : tags = []
      · subst htags
        exact ⟨[], rfl⟩
      · obtain ⟨shorter, hshorter⟩ := ih htags
        simp [beginnings, hshorter]
  obtain ⟨shorter, hshorter⟩ := hfirst h
  unfold keysOf
  rw [hshorter]
  exact ⟨_, rfl⟩

theorem IsNormalKey.normalText_eq (h : IsNormalKey key) : normalText key = key.toList := by
  unfold normalText
  rw [Text.trim_eq_self h.trimmed]
  have hsame : ∀ c ∈ key.toList, normalizeSeparator c = c := by
    intro c hc
    apply if_neg
    rintro rfl
    exact h.no_underscore hc
  rw [List.map_congr_left hsame, List.map_id']

theorem IsNormalKey.subtags_eq_splitOn (h : IsNormalKey key) :
    subtags key = Text.splitOn ['-'] key.toList := by
  rw [subtags_eq, h.normalText_eq, List.filter_eq_self]
  intro tag htag
  simpa using h.subtag_ne_nil tag htag

/-- A normal key is tried first when it is asked for. -/
theorem IsNormalKey.exists_fallbackChain_eq (h : IsNormalKey key) :
    ∃ shorter, fallbackChain [key] = key :: shorter := by
  have hne : subtags key ≠ [] := by
    rw [h.subtags_eq_splitOn]
    exact Text.splitOn_ne_nil _ _
  have hjoined : joinSubtags (subtags key) = key := by
    unfold joinSubtags
    rw [h.subtags_eq_splitOn, Text.intercalate_splitOn_mark, String.ofList_toList]
  obtain ⟨shorter, hkeys⟩ := exists_keysOf_eq_cons hne
  rw [hjoined] at hkeys
  unfold fallbackChain
  rw [List.flatMap_singleton, hkeys, List.eraseDups_cons]
  exact ⟨_, rfl⟩

/-- The keys that are tried for an identifier are joined from characters of its normal text, in
order. -/
theorem sublist_normalText {identifier : String} {tags : List (List Char)}
    (h : tags <+: subtags identifier) :
    (['-'].intercalate tags).Sublist (normalText identifier) := by
  have hall : tags.Sublist (Text.splitOn ['-'] (normalText identifier)) :=
    h.sublist.trans List.filter_sublist
  have hjoined : (['-'].intercalate tags).Sublist
      (['-'].intercalate (Text.splitOn ['-'] (normalText identifier))) := sublist_intercalate hall
  rwa [Text.intercalate_splitOn_mark] at hjoined

theorem trim_isInfix (cs : List Char) : Text.trim cs <:+: cs := by
  obtain ⟨front, back, -, -, hcs⟩ := Text.exists_trim cs
  exact ⟨front, back, hcs.symm⟩

/-- A text that loses nothing when it is trimmed has no blanks at its ends. -/
theorem trimmed_of_length_le {cs : List Char} (h : cs.length ≤ (Text.trim cs).length) :
    Text.Trimmed cs := by
  have hlength := Nat.le_antisymm (trim_isInfix cs).length_le h
  rw [← List.IsInfix.eq_of_length (trim_isInfix cs) hlength]
  exact Text.trimmed_trim cs

/-- A key that is tried when it is asked for is normal: had anything been changed or left out, it
would be longer than all that is tried. -/
theorem isNormalKey_of_mem_fallbackChain (h : key ∈ fallbackChain [key]) : IsNormalKey key := by
  obtain ⟨identifier, hidentifier, tags, hne, hbegins, hkey⟩ := mem_fallbackChain_iff.1 h
  obtain rfl : identifier = key := by simpa using hidentifier
  have hchars : ['-'].intercalate tags = identifier.toList := by
    rw [← hkey]
    exact String.toList_ofList.symm
  have htags : ∀ tag ∈ tags, IsSubtag tag := fun tag htag =>
    isSubtag_of_mem (hbegins.subset htag)
  have hlength : (normalText identifier).length = (Text.trim identifier.toList).length :=
    List.length_map _
  have hnormal : identifier.toList = normalText identifier := by
    have hsublist := sublist_normalText hbegins
    rw [hchars] at hsublist
    apply hsublist.eq_of_length_le
    rw [hlength]
    exact (trim_isInfix identifier.toList).length_le
  refine ⟨?_, ?_, ?_⟩
  · apply trimmed_of_length_le
    rw [← hlength, ← hnormal]
  · rw [hnormal]
    exact underscore_not_mem_normalText identifier
  · have hcut : Text.splitOn ['-'] identifier.toList = tags := by
      rw [← hchars]
      apply Text.splitOn_intercalate (List.cons_ne_nil _ _) hne
      intro tag htag
      exact Text.uncut_mark (htags tag htag).no_hyphen
    rw [hcut]
    exact fun tag htag => (htags tag htag).ne_nil

end

/-! ### Looking up -/

namespace Table

variable (t : Table) {key : String}

/-- A key that the table has is found under its own name if it is normal. -/
theorem lookup_own_name_iff {set : RuleSet} (hset : t.get? key = some set) :
    t.lookup [key] = some (key, set) ↔ IsNormalKey key := by
  constructor
  · intro hfound
    obtain ⟨before, after, hchain, -, -⟩ := t.lookup_eq_some_iff.1 hfound
    apply isNormalKey_of_mem_fallbackChain
    rw [hchain]
    exact List.mem_append_right _ List.mem_cons_self
  · intro hnormal
    obtain ⟨shorter, hchain⟩ := hnormal.exists_fallbackChain_eq
    exact t.lookup_eq_some_iff.2 ⟨[], shorter, hchain, hset, by simp⟩

/-- One language that is asked for is checked under the key that is found for it. -/
theorem keysToCheck_singleton_iff :
    CommandLine.keysToCheck t [key] = .ok [key] ↔ ∃ set, t.lookup [key] = some (key, set) := by
  have hkeys : CommandLine.keysToCheck t [key] = (t.require key).map fun found => [found.1] := by
    unfold CommandLine.keysToCheck
    rw [List.mapM_cons, List.mapM_nil]
    cases t.require key <;> rfl
  rw [hkeys]
  unfold require
  cases t.lookup [key] with
  | none => simp [Except.map]
  | some found => simp [Except.map, Prod.ext_iff]

/-- A check without languages goes through all the keys of the table. Each of them is found under
its own name, with its own rules, just if it is normal, and so can be selected for a check by
itself. -/
theorem listed_found_iff :
    CommandLine.keysToCheck t [] = .ok t.keys ∧
      ∀ key ∈ t.keys, ∃ set, t.get? key = some set ∧
        (t.lookup [key] = some (key, set) ↔ IsNormalKey key) ∧
        (CommandLine.keysToCheck t [key] = .ok [key] ↔ IsNormalKey key) := by
  refine ⟨rfl, ?_⟩
  intro key hkey
  obtain ⟨set, hset⟩ := t.languages.mem_keys_iff.1 hkey
  have hfound := t.lookup_own_name_iff hset
  refine ⟨set, hset, hfound, ?_⟩
  rw [keysToCheck_singleton_iff, ← hfound]
  constructor
  · rintro ⟨set', hset'⟩
    obtain ⟨-, -, -, hget, -⟩ := t.lookup_eq_some_iff.1 hset'
    obtain rfl : set' = set := Option.some.inj (hget.symm.trans hset)
    exact hset'
  · intro h
    exact ⟨set, h⟩

/-- Two languages of which the one is a shorter name for the other, and one with an underscore. -/
def namesakes : Table :=
  (((empty .cardinal).insert "pt" ⟨[(.one, "i = 0..1")]⟩).insert "pt-PT"
    ⟨[(.one, "i = 1 and v = 0")]⟩).insert "en_US" ⟨[(.one, "n = 1")]⟩

theorem listed_found_namesakes :
    "pt-PT" ∈ namesakes.keys ∧ IsNormalKey "pt-PT" ∧
      namesakes.lookup ["pt-PT"] = some ("pt-PT", ⟨[(.one, "i = 1 and v = 0")]⟩) := by
  have hlisted : "pt-PT" ∈ namesakes.keys := by decide +kernel
  have hnormal : IsNormalKey "pt-PT" := by decide +kernel
  obtain ⟨set, hset, hfound, -⟩ := namesakes.listed_found_iff.2 "pt-PT" hlisted
  have hrules : namesakes.get? "pt-PT" = some ⟨[(.one, "i = 1 and v = 0")]⟩ := by decide +kernel
  obtain rfl := Option.some.inj (hset.symm.trans hrules)
  exact ⟨hlisted, hnormal, hfound.2 hnormal⟩

/-- A key with an underscore is listed, has rules and is not blank; yet it is not found. -/
theorem listed_not_found :
    "en_US" ∈ namesakes.keys ∧ Text.trim "en_US".toList ≠ [] ∧
      namesakes.get? "en_US" = some ⟨[(.one, "n = 1")]⟩ ∧
      namesakes.lookup ["en_US"] = none := by
  decide +kernel

end Table

end PluralForms
