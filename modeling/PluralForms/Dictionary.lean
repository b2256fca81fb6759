/-!
# Dictionaries

Values under texts as keys, kept in the order of the keys. The order is that of code points, which
is also that of the UTF-8 bytes. Since each key stands once and in its place, two dictionaries that
hold the same values are equal.

* `get?_insert` - what is found after a value is put in.
-/

namespace PluralForms

/-- Values in the order of their keys. -/
structure Dictionary (α : Type) where
  entries : List (String × α)
  ordered : entries.Pairwise fun a b => a.1 < b.1

namespace Dictionary

variable {α : Type}

def empty : Dictionary α := ⟨[], .nil⟩

/-- Put a value in its place; a value already there is replaced. -/
def insertEntry (key : String) (value : α) : List (String × α) → List (String × α)
  | [] => [(key, value)]
  | (k, v) :: rest =>
    if key < k then (key, value) :: (k, v) :: rest
    else if k < key then (k, v) :: insertEntry key value rest
    else (key, value) :: rest

theorem key_of_mem_insertEntry {key : String} {value : α} {entries : List (String × α)}
    {entry : String × α} (h : entry ∈ insertEntry key value entries) :
    entry.1 = key ∨ entry ∈ entries := by
  induction entries with
  | nil => simp_all [insertEntry]
  | cons first rest ih =>
    unfold insertEntry at h
    split at h
    · simp only [List.mem_cons] at h ⊢
      rcases h with rfl | h
      · exact Or.inl rfl
      · exact Or.inr h
    · split at h
      · simp only [List.mem_cons] at h ⊢
        rcases h with h | h
        · exact Or.inr (Or.inl h)
        · rcases ih h with h | h
          · exact Or.inl h
          · exact Or.inr (Or.inr h)
      · simp only [List.mem_cons] at h ⊢
        rcases h with rfl | h
        · exact Or.inl rfl
        · exact Or.inr (Or.inr h)

theorem ordered_insertEntry (key : String) (value : α) {entries : List (String × α)}
    (h : entries.Pairwise fun a b => a.1 < b.1) :
    (insertEntry key value entries).Pairwise fun a b => a.1 < b.1 := by
  induction entries with
  | nil => simp [insertEntry]
  | cons first rest ih =>
    obtain ⟨k, v⟩ := first
    rw [List.pairwise_cons] at h
    unfold insertEntry
    split
    · next hlt =>
      refine List.pairwise_cons.2 ⟨fun entry hm => ?_, List.pairwise_cons.2 h⟩
      rcases List.mem_cons.1 hm with rfl | hm
      · exact hlt
      · exact String.lt_trans hlt (h.1 entry hm)
    · next hnlt =>
      split
      · next hgt =>
        refine List.pairwise_cons.2 ⟨fun entry hm => ?_, ih h.2⟩
        rcases key_of_mem_insertEntry hm with heq | hm
        · exact heq ▸ hgt
        · exact h.1 entry hm
      · next hngt =>
        have heq : key = k := String.le_antisymm hngt hnlt
        exact List.pairwise_cons.2 ⟨fun entry hm => heq ▸ h.1 entry hm, h.2⟩

def insert (d : Dictionary α) (key : String) (value : α) : Dictionary α :=
  ⟨insertEntry key value d.entries, ordered_insertEntry key value d.ordered⟩

/-- A later value under a key replaces an earlier one. -/
def ofList (entries : List (String × α)) : Dictionary α :=
  entries.foldl (fun d entry => d.insert entry.1 entry.2) empty

/-- The value under a key. -/
def get? (d : Dictionary α) (key : String) : Option α :=
  (d.entries.find? (·.1 == key)).map (·.2)

def keys (d : Dictionary α) : List String := d.entries.map (·.1)

def size (d : Dictionary α) : Nat := d.entries.length

/-! ### Looking up -/

theorem find?_insertEntry (key : String) (value : α) (entries : List (String × α)) (k : String) :
    ((insertEntry key value entries).find? (·.1 == k)).map (·.2) =
      if k = key then some value else (entries.find? (·.1 == k)).map (·.2) := by
  induction entries with
  | nil =>
    by_cases h : k = key
    · simp [insertEntry, h]
    · have h' : ¬key = k := fun e => h e.symm
      simp [insertEntry, h, h']
  | cons first rest ih =>
    obtain ⟨k₀, v₀⟩ := first
    unfold insertEntry
    split
    · by_cases h : k = key
      · simp [h]
      · have h' : ¬key = k := fun e => h e.symm
        simp [List.find?_cons, h, h']
    · next hnlt =>
      split
      · next hgt =>
        by_cases h₀ : k₀ = k
        · subst h₀
          have h : ¬k₀ = key := String.ne_of_lt hgt
          simp [h]
        · simp [h₀, ih]
      · next hngt =>
        have heq : key = k₀ := String.le_antisymm hngt hnlt
        subst heq
        by_cases h : k = key
        · simp [h]
        · have h' : ¬key = k := fun e => h e.symm
          simp [h, h']

theorem get?_insert (d : Dictionary α) (key : String) (value : α) (k : String) :
    (d.insert key value).get? k = if k = key then some value else d.get? k :=
  find?_insertEntry key value d.entries k

@[simp] theorem get?_empty (k : String) : (empty : Dictionary α).get? k = none := rfl

end Dictionary

end PluralForms
