import Mathlib.Data.Finset.Card
import PluralForms.Proofs.Dictionary

/-!
# What was handed out

A memory keeps one object under each key. It makes the object when the key is first asked for, and
it forgets all objects at once when it is emptied. Every object that it makes gets the next serial
number, and the objects that it has handed out are written down in a list, each with its key and
with its *epoch*: how often the memory was emptied before. A list that is right about the memory
`Tracks` it, and so it does after another object is handed out, kept or new, and after the memory is
emptied. Such a list tells how many objects are kept and which are the same:

    Tracks.size_eq    : as many are kept as there are keys in the entries of the epoch
    Tracks.identified : two entries have the same object iff they have the same epoch and key
-/

namespace PluralForms

/-- An object that was handed out for a key, in some epoch. -/
structure Handout (α : Type) where
  epoch : Nat
  key : String
  object : α

variable {α : Type}

/-- Two objects are the same, and have the same serial number, if they were handed out for the same
key in the same epoch, and only then. -/
def Identified (serial : α → Nat) (handouts : List (Handout α)) : Prop :=
  ∀ a ∈ handouts, ∀ b ∈ handouts,
    (a.object = b.object ↔ a.epoch = b.epoch ∧ a.key = b.key) ∧
    (serial a.object = serial b.object ↔ a.epoch = b.epoch ∧ a.key = b.key)

/-- A list of handouts is right about a memory that keeps `kept`, has given out `issued` serial
numbers and was emptied `epoch` times. -/
structure Tracks (serial : α → Nat) (kept : Dictionary α) (issued epoch : Nat)
    (handouts : List (Handout α)) : Prop where
  kept_iff : ∀ key object, kept.get? key = some object ↔ ⟨epoch, key, object⟩ ∈ handouts
  /-- There is one object for each key of an epoch. -/
  unique : ∀ a ∈ handouts, ∀ b ∈ handouts, a.epoch = b.epoch → a.key = b.key → a.object = b.object
  /-- No serial number is given twice. -/
  distinct : ∀ a ∈ handouts, ∀ b ∈ handouts, serial a.object = serial b.object →
    a.epoch = b.epoch ∧ a.key = b.key
  serial_lt : ∀ a ∈ handouts, serial a.object < issued
  epoch_le : ∀ a ∈ handouts, a.epoch ≤ epoch

namespace Tracks

variable {serial : α → Nat} {kept : Dictionary α} {issued epoch : Nat}
  {handouts others : List (Handout α)} {key : String} {object : α}

/-! ### Memories -/

theorem start (serial : α → Nat) : Tracks serial .empty 0 0 [] where
  kept_iff := by simp
  unique := by simp
  distinct := by simp
  serial_lt := by simp
  epoch_le := by simp

/-- How often and in which order objects were handed out does not matter. -/
theorem congr (h : Tracks serial kept issued epoch handouts)
    (hsame : ∀ a, a ∈ others ↔ a ∈ handouts) : Tracks serial kept issued epoch others where
  kept_iff := by
    intro key object
    rw [hsame, h.kept_iff]
  unique := by
    intro a ha b hb
    exact h.unique a ((hsame a).1 ha) b ((hsame b).1 hb)
  distinct := by
    intro a ha b hb
    exact h.distinct a ((hsame a).1 ha) b ((hsame b).1 hb)
  serial_lt := by
    intro a ha
    exact h.serial_lt a ((hsame a).1 ha)
  epoch_le := by
    intro a ha
    exact h.epoch_le a ((hsame a).1 ha)

/-- An object that is kept is handed out again. -/
theorem again (h : Tracks serial kept issued epoch handouts) (hkept : kept.get? key = some object) :
    Tracks serial kept issued epoch (handouts ++ [⟨epoch, key, object⟩]) := by
  apply h.congr
  intro a
  have hmem := (h.kept_iff key object).1 hkept
  constructor
  · intro ha
    rcases List.mem_append.1 ha with ha | ha
    · exact ha
    · rw [List.mem_singleton.1 ha]
      exact hmem
  · intro ha
    exact List.mem_append_left _ ha

/-- What is not kept was not handed out in this epoch. -/
theorem not_mem_of_none (h : Tracks serial kept issued epoch handouts)
    (hnone : kept.get? key = none) {a : Handout α} (ha : a ∈ handouts) :
    ¬(a.epoch = epoch ∧ a.key = key) := by
  rintro ⟨rfl, rfl⟩
  have hkept := (h.kept_iff a.key a.object).2 ha
  rw [hnone] at hkept
  simp at hkept

/-- A new object is kept and handed out. -/
theorem new (h : Tracks serial kept issued epoch handouts) (hnone : kept.get? key = none)
    (hserial : serial object = issued) :
    Tracks serial (kept.insert key object) (issued + 1) epoch
      (handouts ++ [⟨epoch, key, object⟩]) where
  kept_iff := by
    intro key' object'
    rw [Dictionary.get?_insert, List.mem_append, List.mem_singleton, ← h.kept_iff]
    by_cases hkey : key' = key
    · subst hkey
      simp [hnone, eq_comm]
    · simp [hkey]
  unique := by
    simp only [List.mem_append, List.mem_singleton]
    rintro a (ha | rfl) b (hb | rfl) hepoch hkey
    · exact h.unique a ha b hb hepoch hkey
    · exact absurd ⟨hepoch, hkey⟩ (h.not_mem_of_none hnone ha)
    · exact absurd ⟨hepoch.symm, hkey.symm⟩ (h.not_mem_of_none hnone hb)
    · rfl
  distinct := by
    simp only [List.mem_append, List.mem_singleton]
    rintro a (ha | rfl) b (hb | rfl) heq
    · exact h.distinct a ha b hb heq
    · exact absurd (heq.trans hserial) (Nat.ne_of_lt (h.serial_lt a ha))
    · exact absurd (heq.symm.trans hserial) (Nat.ne_of_lt (h.serial_lt b hb))
    · exact ⟨rfl, rfl⟩
  serial_lt := by
    simp only [List.mem_append, List.mem_singleton]
    rintro a (ha | rfl)
    · exact Nat.lt_succ_of_lt (h.serial_lt a ha)
    · exact Nat.lt_succ_of_le (Nat.le_of_eq hserial)
  epoch_le := by
    simp only [List.mem_append, List.mem_singleton]
    rintro a (ha | rfl)
    · exact h.epoch_le a ha
    · exact Nat.le_refl _

/-- An emptied memory begins another epoch. -/
theorem emptied (h : Tracks serial kept issued epoch handouts) :
    Tracks serial .empty issued (epoch + 1) handouts where
  kept_iff := by
    intro key object
    rw [Dictionary.get?_empty]
    constructor
    · intro hkept
      simp at hkept
    · intro hmem
      exact absurd (h.epoch_le _ hmem) (Nat.not_succ_le_self epoch)
  unique := h.unique
  distinct := h.distinct
  serial_lt := h.serial_lt
  epoch_le := by
    intro a ha
    exact Nat.le_succ_of_le (h.epoch_le a ha)

/-! ### What the list tells -/

theorem identified (h : Tracks serial kept issued epoch handouts) : Identified serial handouts := by
  intro a ha b hb
  refine ⟨⟨fun heq => ?_, fun hsame => ?_⟩, fun heq => ?_, fun hsame => ?_⟩
  · exact h.distinct a ha b hb (congrArg serial heq)
  · exact h.unique a ha b hb hsame.1 hsame.2
  · exact h.distinct a ha b hb heq
  · exact congrArg serial (h.unique a ha b hb hsame.1 hsame.2)

/-- The keys that are kept are those that were asked for in this epoch. -/
theorem mem_keys_iff (h : Tracks serial kept issued epoch handouts) :
    key ∈ kept.keys ↔ ∃ a ∈ handouts, a.epoch = epoch ∧ a.key = key := by
  rw [Dictionary.mem_keys_iff]
  constructor
  · rintro ⟨object, hkept⟩
    exact ⟨_, (h.kept_iff key object).1 hkept, rfl, rfl⟩
  · rintro ⟨a, ha, rfl, rfl⟩
    exact ⟨a.object, (h.kept_iff a.key a.object).2 ha⟩

/-- So many objects are kept as there are different keys that were asked for in this epoch. -/
theorem size_eq (h : Tracks serial kept issued epoch handouts) {keys : List String}
    (hkeys : ∀ key, key ∈ keys ↔ ∃ a ∈ handouts, a.epoch = epoch ∧ a.key = key) :
    kept.size = keys.toFinset.card := by
  have hset : keys.toFinset = kept.keys.toFinset := by
    ext key
    rw [List.mem_toFinset, List.mem_toFinset, hkeys, h.mem_keys_iff]
  rw [hset, List.toFinset_card_of_nodup kept.nodup_keys]
  exact (List.length_map _).symm

end Tracks

end PluralForms
