import Mathlib.Data.List.Infix
import PluralForms.Proofs.Text.Pieces
import PluralForms.Table.Lookup

/-!
# Falling back to shorter identifiers

The keys that are tried for some identifiers are the beginnings of their subtags, each key once and
in its first place. So what a list of identifiers adds to the keys of those before it are the keys
that are new,

    fallbackChain_append : fallbackChain (xs ++ ys) =
      fallbackChain xs ++ (fallbackChain ys).filter (· ∉ fallbackChain xs)

and a key is followed up to its first subtag, since a beginning of a beginning is one. A table
answers with the first key that it has, so identifiers that are put behind others matter only if
none of those finds anything.

* `mem_fallbackChain_iff` - which keys are tried;
* `fallback_lawful` - the laws of the keys, and of looking them up.
-/

namespace PluralForms

/-! ### Lists -/

section EraseDups

variable {α : Type} [BEq α] [LawfulBEq α]

/-- What is filtered out may be filtered out before or after. -/
theorem eraseDups_filter (p : α → Bool) (as : List α) :
    (as.filter p).eraseDups = as.eraseDups.filter p := by
  -- what follows an element is filtered before it is looked at, so the induction is on the length
  induction hlen : as.length using Nat.strongRecOn generalizing as with
  | _ k ih =>
    cases as with
    | nil => rfl
    | cons a as =>
      have hshorter : (as.filter fun b => !b == a).length < k := by
        rw [← hlen, List.length_cons]
        exact Nat.lt_succ_of_le (List.length_filter_le _ _)
      have hrest := ih _ hshorter (as.filter fun b => !b == a) rfl
      rw [List.eraseDups_cons, List.filter_cons, List.filter_cons, ← hrest, List.filter_filter]
      by_cases ha : p a = true
      · rw [if_pos ha, if_pos ha, List.eraseDups_cons, List.filter_filter]
        simp only [Bool.and_comm]
      · have hnever : ∀ b, (p b && !b == a) = p b := by
          intro b
          by_cases hb : b = a
          · simp [hb, Bool.eq_false_iff.2 ha]
          · simp [hb]
        rw [if_neg ha, if_neg ha]
        simp only [hnever]

theorem nodup_eraseDups (as : List α) : as.eraseDups.Nodup := by
  induction hlen : as.length using Nat.strongRecOn generalizing as with
  | _ k ih =>
    cases as with
    | nil => exact List.nodup_nil
    | cons a as =>
      rw [List.eraseDups_cons, List.nodup_cons, List.mem_eraseDups]
      refine ⟨by simp, ih _ ?_ _ rfl⟩
      rw [← hlen, List.length_cons]
      exact Nat.lt_succ_of_le (List.length_filter_le _ _)

/-- Of a second list the elements are added that the first has not. -/
theorem eraseDups_append_eq_filter [DecidableEq α] (as bs : List α) :
    (as ++ bs).eraseDups = as.eraseDups ++ bs.eraseDups.filter (· ∉ as.eraseDups) := by
  rw [List.eraseDups_append, List.removeAll, eraseDups_filter]
  congr 2
  funext b
  simp

end EraseDups

/-- A search passes over what it finds nothing for, so that may be left out. -/
theorem findSome?_filter_of_none {α β : Type} {f : α → Option β} {p : α → Bool} {as : List α}
    (h : ∀ a ∈ as, p a = false → f a = none) : (as.filter p).findSome? f = as.findSome? f := by
  induction as with
  | nil => rfl
  | cons a as ih =>
    have hrest := ih fun b hb => h b (List.mem_cons_of_mem a hb)
    cases hp : p a with
    | true => rw [List.filter_cons_of_pos hp, List.findSome?_cons, List.findSome?_cons, hrest]
    | false =>
      rw [List.filter_cons_of_neg (by simp [hp]), List.findSome?_cons,
        h a List.mem_cons_self hp, hrest]

/-! ### Subtags -/

theorem mem_beginnings_iff {α : Type} {as bs : List α} :
    as ∈ beginnings bs ↔ as ≠ [] ∧ as <+: bs := by
  induction bs generalizing as with
  | nil => simp [beginnings]
  | cons b bs ih =>
    cases as with
    | nil => simp [beginnings]
    | cons a as =>
      simp only [beginnings, List.mem_append, List.mem_map, ih, List.cons.injEq,
        List.mem_singleton, List.cons_prefix_cons]
      constructor
      · rintro (⟨front, ⟨-, hfront⟩, rfl, rfl⟩ | ⟨rfl, rfl⟩)
        · exact ⟨List.cons_ne_nil _ _, rfl, hfront⟩
        · exact ⟨List.cons_ne_nil _ _, rfl, List.nil_prefix⟩
      · rintro ⟨-, rfl, hfront⟩
        by_cases has : as = []
        · exact Or.inr ⟨rfl, has⟩
        · exact Or.inl ⟨as, ⟨has, hfront⟩, rfl, rfl⟩

/-- A subtag is not empty and has no hyphen of its own. -/
structure IsSubtag (tag : List Char) : Prop where
  ne_nil : tag ≠ []
  no_hyphen : '-' ∉ tag

theorem isSubtag_of_mem {identifier : String} {tag : List Char} (h : tag ∈ subtags identifier) :
    IsSubtag tag := by
  obtain ⟨hpiece, hne⟩ := List.mem_filter.1 h
  exact ⟨by simpa using hne, Text.of_mem_splitOn_mark hpiece⟩

/-! ### Keys -/

/-- The keys that are tried are joined from the beginnings of the identifiers' subtags. -/
theorem mem_fallbackChain_iff {identifiers : List String} {key : String} :
    key ∈ fallbackChain identifiers ↔
      ∃ identifier ∈ identifiers, ∃ tags, tags ≠ [] ∧ tags <+: subtags identifier ∧
        joinSubtags tags = key := by
  unfold fallbackChain keysOf
  simp only [List.mem_eraseDups, List.mem_flatMap, List.mem_map, mem_beginnings_iff, and_assoc]

theorem fallbackChain_append (xs ys : List String) :
    fallbackChain (xs ++ ys) =
      fallbackChain xs ++ (fallbackChain ys).filter (· ∉ fallbackChain xs) := by
  unfold fallbackChain
  rw [List.flatMap_append, eraseDups_append_eq_filter]

theorem empty_not_mem_fallbackChain (identifiers : List String) :
    "" ∉ fallbackChain identifiers := by
  intro hmem
  obtain ⟨identifier, -, tags, hne, hbegins, hkey⟩ := mem_fallbackChain_iff.1 hmem
  obtain ⟨first, others, rfl⟩ := List.exists_cons_of_ne_nil hne
  have hfirst := (isSubtag_of_mem (hbegins.subset List.mem_cons_self)).ne_nil
  have hchars : ['-'].intercalate (first :: others) = [] := by
    simpa [joinSubtags] using congrArg String.toList hkey
  cases others with
  | nil => exact hfirst (by simpa using hchars)
  | cons next others => simp [List.intercalate_cons_cons] at hchars

/-- What stands before the last hyphen of a key, if there is one: the key without its last
subtag. -/
def withoutLastSubtag (key : String) : Option String :=
  match key.toList.reverse.dropWhile (· != '-') with
  | [] => none
  | _ :: front => some (String.ofList front.reverse)

theorem withoutLastSubtag_of_not_mem {tag : List Char} (h : '-' ∉ tag) :
    withoutLastSubtag (String.ofList tag) = none := by
  have hdrop : tag.reverse.dropWhile (· != '-') = [] := by
    rw [List.dropWhile_eq_nil_iff]
    intro c hc
    rw [bne_iff_ne]
    rintro rfl
    exact h (List.mem_reverse.1 hc)
  unfold withoutLastSubtag
  rw [String.toList_ofList, hdrop]

theorem withoutLastSubtag_append {tag : List Char} (h : '-' ∉ tag) (front : List Char) :
    withoutLastSubtag (String.ofList (front ++ '-' :: tag)) = some (String.ofList front) := by
  have hrun : ∀ c ∈ tag.reverse, (c != '-') = true := by
    intro c hc
    rw [bne_iff_ne]
    rintro rfl
    exact h (List.mem_reverse.1 hc)
  have hdrop : (front ++ '-' :: tag).reverse.dropWhile (· != '-') = '-' :: front.reverse := by
    rw [List.reverse_append, List.reverse_cons, List.append_assoc, Text.dropWhile_run hrun]
    · rfl
    · simp
  unfold withoutLastSubtag
  rw [String.toList_ofList, hdrop]
  simp

/-- Without its last subtag, a key of two subtags or more is one that is tried too. -/
theorem mem_of_withoutLastSubtag {identifiers : List String} {key shorter : String}
    (hkey : key ∈ fallbackChain identifiers) (h : withoutLastSubtag key = some shorter) :
    shorter ≠ key ∧ shorter ∈ fallbackChain identifiers := by
  obtain ⟨identifier, hidentifier, tags, hne, hbegins, rfl⟩ := mem_fallbackChain_iff.1 hkey
  obtain ⟨front, last, rfl⟩ : ∃ front last, tags = front ++ [last] :=
    ⟨tags.dropLast, tags.getLast hne, (List.dropLast_append_getLast hne).symm⟩
  have hlast : '-' ∉ last :=
    (isSubtag_of_mem (hbegins.subset (List.mem_append_right front List.mem_cons_self))).no_hyphen
  unfold joinSubtags at h ⊢
  by_cases hfront : front = []
  · rw [hfront, List.nil_append, List.intercalate_singleton,
      withoutLastSubtag_of_not_mem hlast] at h
    exact absurd h (Option.some_ne_none shorter).symm
  · rw [Text.intercalate_append hfront (List.cons_ne_nil last []),
      List.intercalate_singleton] at h ⊢
    rw [List.singleton_append, withoutLastSubtag_append hlast] at h
    obtain rfl := Option.some.inj h
    refine ⟨fun heq => ?_, mem_fallbackChain_iff.2 ⟨identifier, hidentifier, front, hfront,
      (List.prefix_append front [last]).trans hbegins, rfl⟩⟩
    have hlength := congrArg (List.length ∘ String.toList) heq
    simp at hlength

/-! ### Separators -/

/-- A hyphen for an underscore and an underscore for a hyphen. -/
def exchangeSeparators (c : Char) : Char :=
  if c = '_' then '-' else if c = '-' then '_' else c

/-- A change of characters that leaves blanks and, hyphen or underscore, separators what they
are. -/
structure KeepsSubtags (f : Char → Char) : Prop where
  blank : ∀ c, Text.isBlank (f c) = Text.isBlank c
  normal : ∀ c, normalizeSeparator (f c) = normalizeSeparator c

theorem keepsSubtags_exchangeSeparators : KeepsSubtags exchangeSeparators where
  blank c := by
    unfold exchangeSeparators
    split_ifs with h₁ h₂
    · rw [h₁]; rfl
    · rw [h₂]; rfl
    · rfl
  normal c := by
    unfold exchangeSeparators
    split_ifs with h₁ h₂
    · rw [h₁]; rfl
    · rw [h₂]; rfl
    · rfl

theorem keepsSubtags_normalizeSeparator : KeepsSubtags normalizeSeparator where
  blank c := by
    unfold normalizeSeparator
    split_ifs with h
    · rw [h]; rfl
    · rfl
  normal c := by
    unfold normalizeSeparator
    split_ifs <;> simp_all

/-- However the separators of the identifiers are written, the same keys are tried. -/
theorem fallbackChain_map {f : Char → Char} (h : KeepsSubtags f) (identifiers : List String) :
    fallbackChain (identifiers.map (·.map f)) = fallbackChain identifiers := by
  have hsubtags : ∀ identifier : String, subtags (identifier.map f) = subtags identifier := by
    intro identifier
    unfold subtags
    rw [String.toList_map, Text.trim_map h.blank, List.map_map]
    have hnormal : normalizeSeparator ∘ f = normalizeSeparator := funext h.normal
    rw [hnormal]
  unfold fallbackChain keysOf
  rw [List.flatMap_map]
  simp only [hsubtags]

/-! ### Looking up -/

namespace Table

variable (t : Table)

theorem lookup_eq_some_iff {identifiers : List String} {key : String} {set : RuleSet} :
    t.lookup identifiers = some (key, set) ↔
      ∃ before after, fallbackChain identifiers = before ++ key :: after ∧
        t.get? key = some set ∧ ∀ k ∈ before, t.get? k = none := by
  unfold lookup
  rw [List.findSome?_eq_some_iff]
  simp [and_assoc]

theorem lookup_eq_none_iff {identifiers : List String} :
    t.lookup identifiers = none ↔ ∀ k ∈ fallbackChain identifiers, t.get? k = none := by
  unfold lookup
  rw [List.findSome?_eq_none_iff]
  simp

theorem lookup_append (xs ys : List String) :
    t.lookup (xs ++ ys) = (t.lookup xs).or (t.lookup ys) := by
  cases hxs : t.lookup xs with
  | some found =>
    unfold lookup at hxs ⊢
    rw [fallbackChain_append, List.findSome?_append, hxs]
    rfl
  | none =>
    have habsent := t.lookup_eq_none_iff.1 hxs
    unfold lookup at hxs ⊢
    rw [fallbackChain_append, List.findSome?_append, hxs, Option.none_or, Option.none_or]
    apply findSome?_filter_of_none
    intro key _ hold
    rw [habsent key (by simpa using hold)]
    rfl

end Table

/-! ### The laws -/

/-- What holds of the keys that are tried. -/
structure LawfulChain (chain : List String → List String) : Prop where
  /-- An identifier gives the keys that are joined from the beginnings of its subtags. -/
  mem_iff : ∀ xs key, key ∈ chain xs ↔
    ∃ x ∈ xs, ∃ tags, tags ≠ [] ∧ tags <+: subtags x ∧ joinSubtags tags = key
  append : ∀ xs ys, chain (xs ++ ys) = chain xs ++ (chain ys).filter (· ∉ chain xs)
  nodup : ∀ xs, (chain xs).Nodup
  ne_empty : ∀ xs, "" ∉ chain xs
  shorter : ∀ xs, ∀ key ∈ chain xs, ∀ shorter ∈ withoutLastSubtag key,
    shorter ≠ key ∧ shorter ∈ chain xs
  exchanged : ∀ xs : List String, chain (xs.map (·.map exchangeSeparators)) = chain xs
  /-- So any of the separators may be exchanged: written with hyphens, they are what they were. -/
  normalized : ∀ xs : List String, chain (xs.map (·.map normalizeSeparator)) = chain xs

/-- What a table finds. -/
structure LawfulLookup (t : Table) : Prop where
  found : ∀ xs key set, t.lookup xs = some (key, set) ↔
    ∃ before after, fallbackChain xs = before ++ key :: after ∧ t.get? key = some set ∧
      ∀ k ∈ before, t.get? k = none
  not_found : ∀ xs, t.lookup xs = none ↔ ∀ k ∈ fallbackChain xs, t.get? k = none
  append : ∀ xs ys, t.lookup (xs ++ ys) = (t.lookup xs).or (t.lookup ys)

/-- Identifiers are expanded into keys as they come, each key once, down to the first subtag,
however the subtags are separated; and every table answers with the first key that it has. -/
theorem fallback_lawful : LawfulChain fallbackChain ∧ ∀ t : Table, LawfulLookup t := by
  refine ⟨⟨fun _ _ => mem_fallbackChain_iff, fallbackChain_append, fun xs => nodup_eraseDups _,
    empty_not_mem_fallbackChain, fun xs key hkey shorter h => mem_of_withoutLastSubtag hkey h,
    ?_, ?_⟩, fun t => ?_⟩
  · exact fallbackChain_map keepsSubtags_exchangeSeparators
  · exact fallbackChain_map keepsSubtags_normalizeSeparator
  · exact ⟨fun xs key set => t.lookup_eq_some_iff, fun xs => t.lookup_eq_none_iff, t.lookup_append⟩

end PluralForms
