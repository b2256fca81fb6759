import Mathlib.Data.List.Induction
import Mathlib.Data.List.Sort
import PluralForms.Dictionary

/-!
# Dictionaries are what is found in them

A dictionary is known from the values under its keys, since its entries have one order. So it does
not matter in which order they were put in, but for keys that were used more than once, of which
the last one counts:

    ext_get?    : (∀ key, d.get? key = d'.get? key) → d = d'
    get?_ofList : (ofList entries).get? = lastOf entries
-/

namespace PluralForms.Dictionary

variable {α β : Type}

/-- The value under a key in a list where keys may be repeated; the last one counts. -/
def lastOf (entries : List (String × α)) (key : String) : Option α := entries.reverse.lookup key

theorem get?_ofList (entries : List (String × α)) : (ofList entries).get? = lastOf entries := by
  funext key
  unfold ofList lastOf
  induction entries using List.reverseRec with
  | nil => rfl
  | append_singleton entries entry ih =>
    rw [List.foldl_append, List.foldl_cons, List.foldl_nil, get?_insert, ih, List.reverse_append,
      List.reverse_singleton, List.singleton_append, List.lookup_cons]
    split
    · next h => rw [h, beq_self_eq_true]
    · next h => rw [beq_false_of_ne h]

theorem lastOf_cons (k : String) (value : α) (entries : List (String × α)) (key : String) :
    lastOf ((k, value) :: entries) key =
      (lastOf entries key).or (if key = k then some value else none) := by
  unfold lastOf
  rw [List.reverse_cons, List.lookup_append]
  rcases eq_or_ne key k with rfl | h
  · simp
  · simp [List.lookup_cons, beq_false_of_ne h, h]

theorem lastOf_map (f : α → β) (entries : List (String × α)) (key : String) :
    lastOf (entries.map fun entry => (entry.1, f entry.2)) key = (lastOf entries key).map f := by
  induction entries with
  | nil => rfl
  | cons entry entries ih =>
    obtain ⟨k, value⟩ := entry
    rw [List.map_cons, lastOf_cons, lastOf_cons, ih, Option.map_or]
    split <;> rfl

/-! ### Entries -/

instance [DecidableEq α] : DecidableEq (Dictionary α) := fun d d' =>
  decidable_of_iff (d.entries = d'.entries) <| by
    obtain ⟨entries, _⟩ := d
    obtain ⟨entries', _⟩ := d'
    simp

theorem mem_entries_iff (d : Dictionary α) {key : String} {value : α} :
    (key, value) ∈ d.entries ↔ d.get? key = some value := by
  obtain ⟨entries, ordered⟩ := d
  show (key, value) ∈ entries ↔ (entries.find? (·.1 == key)).map (·.2) = some value
  induction entries with
  | nil => simp
  | cons entry entries ih =>
    obtain ⟨hfirst, hrest⟩ := List.pairwise_cons.1 ordered
    obtain ⟨k, v⟩ := entry
    rcases eq_or_ne k key with rfl | hkey
    · have hlater : (k, value) ∉ entries := fun hmem => String.lt_irrefl k (hfirst _ hmem)
      simp [hlater, eq_comm]
    · have hkey' : ¬(key = k ∧ value = v) := fun h => hkey h.1.symm
      simp [hkey, hkey', ih hrest]

theorem mem_keys_iff (d : Dictionary α) {key : String} :
    key ∈ d.keys ↔ ∃ value, d.get? key = some value := by
  simp only [keys, List.mem_map, ← mem_entries_iff]
  constructor
  · rintro ⟨⟨key, value⟩, hmem, rfl⟩
    exact ⟨value, hmem⟩
  · rintro ⟨value, hmem⟩
    exact ⟨(key, value), hmem, rfl⟩

theorem nodup_keys (d : Dictionary α) : d.keys.Nodup :=
  List.pairwise_map.2 (d.ordered.imp fun hlt => String.ne_of_lt hlt)

theorem ext_get? {d d' : Dictionary α} (h : ∀ key, d.get? key = d'.get? key) : d = d' := by
  have hentries : d.entries = d'.entries := by
    have : Std.Irrefl fun a b : String × α => a.1 < b.1 := ⟨fun a => String.lt_irrefl a.1⟩
    have : Std.Antisymm fun a b : String × α => a.1 < b.1 :=
      ⟨fun a b hlt hgt => (String.lt_irrefl a.1 (String.lt_trans hlt hgt)).elim⟩
    apply List.Pairwise.eq_of_mem_iff d.ordered d'.ordered
    intro entry
    rw [mem_entries_iff, mem_entries_iff, h]
  cases d
  cases d'
  cases hentries
  rfl

theorem get?_injective : Function.Injective (get? : Dictionary α → String → Option α) :=
  fun _ _ h => ext_get? fun key => congrFun h key

/-- A dictionary that is built from the entries of one is this one. -/
theorem lastOf_entries (d : Dictionary α) : lastOf d.entries = d.get? := by
  obtain ⟨entries, ordered⟩ := d
  funext key
  show lastOf entries key = (entries.find? (·.1 == key)).map (·.2)
  induction entries with
  | nil => rfl
  | cons entry entries ih =>
    obtain ⟨hfirst, hrest⟩ := List.pairwise_cons.1 ordered
    obtain ⟨k, value⟩ := entry
    rw [lastOf_cons, ih hrest]
    rcases eq_or_ne key k with rfl | hkey
    · have hlater : entries.find? (·.1 == key) = none := by
        rw [List.find?_eq_none]
        intro later hmem heq
        exact String.ne_of_lt (hfirst later hmem) (eq_of_beq heq).symm
      simp [hlater]
    · simp [hkey, hkey.symm]

theorem ofList_entries (d : Dictionary α) : ofList d.entries = d :=
  ext_get? fun key => by rw [get?_ofList, lastOf_entries]

/-- Of lists for all the entries, those under other keys being empty, only one is left. -/
theorem flatMap_own_key (d : Dictionary α) (key : String) (f : String → α → List β) :
    (d.entries.flatMap fun entry => if entry.1 = key then f entry.1 entry.2 else []) =
      ((d.get? key).map (f key)).getD [] := by
  obtain ⟨entries, ordered⟩ := d
  show _ = (((entries.find? (·.1 == key)).map (·.2)).map (f key)).getD []
  induction entries with
  | nil => rfl
  | cons entry entries ih =>
    obtain ⟨hfirst, hrest⟩ := List.pairwise_cons.1 ordered
    obtain ⟨k, value⟩ := entry
    by_cases hkey : k = key
    · subst hkey
      have hlater : ∀ later ∈ entries, (if later.1 = k then f later.1 later.2 else []) = [] := by
        intro later hmem
        apply if_neg
        exact (String.ne_of_lt (hfirst later hmem)).symm
      simp [List.flatMap_eq_nil_iff.2 hlater]
    · simp [hkey, ih hrest]

/-! ### Other values -/

section Values

variable (f : α → β)

/-- The same keys with other values. -/
def mapValues (d : Dictionary α) : Dictionary β :=
  ⟨d.entries.map fun entry => (entry.1, f entry.2), List.pairwise_map.2 d.ordered⟩

theorem get?_mapValues (d : Dictionary α) (key : String) :
    (d.mapValues f).get? key = (d.get? key).map f := by
  unfold get? mapValues
  rw [List.find?_map, Option.map_map, Option.map_map]
  rfl

theorem size_mapValues (d : Dictionary α) : (d.mapValues f).size = d.size := List.length_map _

theorem insertEntry_map (key : String) (value : α) (entries : List (String × α)) :
    insertEntry key (f value) (entries.map fun entry => (entry.1, f entry.2)) =
      (insertEntry key value entries).map fun entry => (entry.1, f entry.2) := by
  induction entries with
  | nil => rfl
  | cons entry entries ih =>
    simp only [List.map_cons, insertEntry, ih]
    split
    · rfl
    · split <;> rfl

theorem insert_mapValues (d : Dictionary α) (key : String) (value : α) :
    (d.mapValues f).insert key (f value) = (d.insert key value).mapValues f := by
  unfold insert mapValues
  simp only [insertEntry_map]

end Values

end PluralForms.Dictionary
