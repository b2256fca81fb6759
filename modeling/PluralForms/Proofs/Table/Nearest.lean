import PluralForms.Proofs.Dictionary
import PluralForms.Proofs.Table.EditDistance
import PluralForms.Proofs.Text.ByteOrder

/-!
# Suggestions are the nearest keys

For an identifier, the keys within its reach are ranked: the one that takes fewer edits comes first,
and of two that take as many, the one whose bytes come first. What is suggested are the first three
of this ranking. The keys stand in their order in a table already, and sorting by distance leaves
equally distant ones where they are:

    pairwise_mergeSort : a sort by rank keeps the order that was there inside of each rank
    suggest_nearest : three keys, the nearest ones, or all that are within reach

* `InReach` - a key is another text, but few edits away;
* `Precedes` - one key is suggested before another.
-/

namespace PluralForms

/-! ### Stable sorting -/

theorem pairwise_mergeSort {α : Type} {R : α → α → Prop} (rank : α → Nat) {as : List α}
    (h : as.Pairwise R) : (as.mergeSort fun a b => rank a ≤ rank b).Pairwise fun a b =>
      rank a < rank b ∨ rank a = rank b ∧ R a b := by
  have htrans : ∀ a b c : α, decide (rank a ≤ rank b) = true → decide (rank b ≤ rank c) = true →
      decide (rank a ≤ rank c) = true := by
    intro a b c hab hbc
    simp only [decide_eq_true_eq] at hab hbc ⊢
    exact Nat.le_trans hab hbc
  have htotal : ∀ a b : α, (decide (rank a ≤ rank b) || decide (rank b ≤ rank a)) = true := by
    intro a b
    simpa using Nat.le_total (rank a) (rank b)
  induction as with
  | nil => simp
  | cons a as ih =>
    obtain ⟨hfirst, hrest⟩ := List.pairwise_cons.1 h
    have hsorted := List.pairwise_mergeSort htrans htotal (a :: as)
    obtain ⟨before, behind, hcons, htail, hbefore⟩ := List.mergeSort_cons htrans htotal a as
    have ih := ih hrest
    rw [hcons] at hsorted ⊢
    rw [htail, List.pairwise_append] at ih
    obtain ⟨hpairs, hpairs', hacross⟩ := ih
    have hmem : ∀ b ∈ behind, b ∈ as := by
      intro b hb
      have hsort := List.mergeSort_perm as fun a b => decide (rank a ≤ rank b)
      rw [← hsort.mem_iff, htail]
      exact List.mem_append_right before hb
    refine List.pairwise_append.2 ⟨hpairs, List.pairwise_cons.2 ⟨?_, hpairs'⟩, ?_⟩
    · intro b hb
      have hle := (List.pairwise_cons.1 (List.pairwise_append.1 hsorted).2.1).1 b hb
      rcases Nat.lt_or_eq_of_le (of_decide_eq_true hle) with hlt | heq
      · exact Or.inl hlt
      · exact Or.inr ⟨heq, hfirst b (hmem b hb)⟩
    · intro b hb c hc
      rcases List.mem_cons.1 hc with rfl | hc
      · have hgt := hbefore b hb
        simp only [Bool.not_eq_true', decide_eq_false_iff_not, Nat.not_le] at hgt
        exact Or.inl hgt
      · exact hacross b hb c hc

/-! ### Distances of texts -/

/-- The least number of edits that make `key` of `identifier`. -/
def Apart (identifier key : String) (distance : Nat) : Prop :=
  IsLeast {n | Edits n identifier.toList key.toList} distance

/-- The key is another text and few edits away: one for an identifier of at most three bytes, up to
two for a longer one. -/
def InReach (identifier key : String) : Prop :=
  ∃ distance, Apart identifier key distance ∧ 1 ≤ distance ∧
    distance ≤ if (Text.bytes identifier).length ≤ 3 then 1 else 2

/-- The one key is nearer to the identifier than the other, or as near and before it by its
bytes. -/
def Precedes (identifier key other : String) : Prop :=
  ∃ d e, Apart identifier key d ∧ Apart identifier other e ∧
    (d < e ∨ d = e ∧ Text.bytes key < Text.bytes other)

variable {identifier key other : String}

theorem apart_iff {distance : Nat} : Apart identifier key distance ↔
    distance = editDistance identifier.toList key.toList := by
  constructor
  · intro h
    exact h.unique (isLeast_editDistance _ _)
  · rintro rfl
    exact isLeast_editDistance _ _

theorem inReach_iff : InReach identifier key ↔
    0 < editDistance identifier.toList key.toList ∧
      editDistance identifier.toList key.toList ≤ maxDistance identifier := by
  unfold InReach
  simp only [apart_iff, exists_eq_left]
  exact Iff.rfl

theorem precedes_iff : Precedes identifier key other ↔
    editDistance identifier.toList key.toList < editDistance identifier.toList other.toList ∨
      editDistance identifier.toList key.toList = editDistance identifier.toList other.toList ∧
        key < other := by
  unfold Precedes
  simp only [apart_iff, exists_and_left, exists_eq_left, ← Text.lt_iff_bytes_lt]

theorem Precedes.ne (h : Precedes identifier key other) : key ≠ other := by
  rintro rfl
  rcases precedes_iff.1 h with hlt | ⟨-, hlt⟩
  · exact Nat.lt_irrefl _ hlt
  · exact String.lt_irrefl _ hlt

theorem Precedes.not_precedes (h : Precedes identifier key other) :
    ¬Precedes identifier other key := by
  intro h'
  rcases precedes_iff.1 h with hlt | ⟨heq, hlt⟩ <;>
    rcases precedes_iff.1 h' with hlt' | ⟨heq', hlt'⟩
  · exact Nat.lt_asymm hlt hlt'
  · omega
  · omega
  · exact String.lt_irrefl _ (String.lt_trans hlt hlt')

/-! ### The ranking -/

namespace Table

variable (t : Table) (identifier : String)

/-- The keys within reach, from the nearest to the farthest. -/
def ranking : List String :=
  ((t.within identifier).mergeSort fun a b => a.1 ≤ b.1).map (·.2)

theorem suggest_eq_take : t.suggest identifier = (t.ranking identifier).take 3 := List.map_take

theorem distance_of_mem_within {entry : Nat × String} (h : entry ∈ t.within identifier) :
    entry.1 = editDistance identifier.toList entry.2.toList := by
  obtain ⟨key, -, hsome⟩ := List.mem_filterMap.1 h
  dsimp only at hsome
  split at hsome
  · cases hsome
    rfl
  · cases hsome

theorem mem_ranking_iff : key ∈ t.ranking identifier ↔ key ∈ t.keys ∧ InReach identifier key := by
  rw [inReach_iff]
  simp [ranking, within]

theorem pairwise_within : (t.within identifier).Pairwise fun a b => a.2 < b.2 := by
  have hkeys : t.keys.Pairwise (· < ·) := List.pairwise_map.2 t.languages.ordered
  refine List.Pairwise.filterMap _ ?_ hkeys
  intro key other hlt entry hentry entry' hentry'
  dsimp only at hentry hentry'
  split at hentry <;> split at hentry'
  · cases hentry
    cases hentry'
    exact hlt
  all_goals contradiction

theorem pairwise_ranking : (t.ranking identifier).Pairwise (Precedes identifier) := by
  refine List.pairwise_map.2 ?_
  have hmem : ∀ entry ∈ (t.within identifier).mergeSort fun a b => a.1 ≤ b.1,
      entry.1 = editDistance identifier.toList entry.2.toList := by
    intro entry hentry
    exact t.distance_of_mem_within identifier (List.mem_mergeSort.1 hentry)
  refine (pairwise_mergeSort Prod.fst (t.pairwise_within identifier)).imp_of_mem ?_
  intro entry entry' h h' hrank
  rw [hmem entry h, hmem entry' h'] at hrank
  exact precedes_iff.2 hrank

/-- At most three keys are suggested, all within reach of the identifier, the nearest first. A key
within reach that is left out comes behind all of them in the ranking; and if there are fewer than
three, none is left out. -/
theorem suggest_nearest (t : Table) (identifier : String) :
    (t.suggest identifier).length ≤ 3 ∧
    (t.suggest identifier).Nodup ∧
    (t.suggest identifier).Pairwise (Precedes identifier) ∧
    (∀ key ∈ t.suggest identifier, key ∈ t.keys ∧ InReach identifier key) ∧
    (∀ key ∈ t.keys, InReach identifier key → key ∉ t.suggest identifier →
      ∀ listed ∈ t.suggest identifier,
        Precedes identifier listed key ∧ ¬Precedes identifier key listed) ∧
    ((t.suggest identifier).length < 3 →
      ∀ key ∈ t.keys, InReach identifier key → key ∈ t.suggest identifier) := by
  have hranked := t.pairwise_ranking identifier
  have hmem : ∀ {key}, key ∈ t.ranking identifier ↔ key ∈ t.keys ∧ InReach identifier key :=
    t.mem_ranking_iff identifier
  rw [suggest_eq_take]
  generalize t.ranking identifier = ranking at hranked hmem
  have hlisted : (ranking.take 3).Pairwise (Precedes identifier) :=
    hranked.sublist (List.take_sublist 3 ranking)
  refine ⟨List.length_take_le 3 ranking, hlisted.imp Precedes.ne, hlisted, ?_, ?_, ?_⟩
  · intro key hkey
    exact hmem.1 (List.mem_of_mem_take hkey)
  · intro key hkey hreach hnot listed hfirst
    have hrest : key ∈ ranking.drop 3 := by
      have hkey := hmem.2 ⟨hkey, hreach⟩
      rw [← List.take_append_drop 3 ranking, List.mem_append] at hkey
      exact hkey.resolve_left hnot
    rw [← List.take_append_drop 3 ranking] at hranked
    have hprecedes := (List.pairwise_append.1 hranked).2.2 listed hfirst key hrest
    exact ⟨hprecedes, hprecedes.not_precedes⟩
  · intro hshort key hkey hreach
    rw [List.length_take] at hshort
    rw [List.take_of_length_le (by omega)]
    exact hmem.2 ⟨hkey, hreach⟩

example : Table.suggest ((((empty .cardinal).insert "en" ⟨[]⟩).insert "es" ⟨[]⟩).insert "pt" ⟨[]⟩)
    "ens" = ["en", "es"] := by
  cbv

end Table

end PluralForms
