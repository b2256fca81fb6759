import Mathlib.Tactic.ByContra
import Mathlib.Tactic.SplitIfs

/-!
# The order of texts is that of their bytes

Texts are compared by code points. UTF-8 keeps this order: of two characters, the smaller one has
the smaller byte where their codes first differ, and no code goes on where another one ends. So
texts may as well be compared byte by byte:

    lt_iff_bytes_lt : a < b ↔ bytes a < bytes b
-/

namespace PluralForms.Text

/-- The bytes of a text, in UTF-8. -/
def bytes (text : String) : List UInt8 := text.toUTF8.data.toList

/-- The bytes of characters one behind the other. -/
def bytesOfChars (cs : List Char) : List UInt8 := cs.flatMap String.utf8EncodeChar

theorem bytes_eq (text : String) : bytes text = bytesOfChars text.toList := by
  unfold bytes bytesOfChars
  rw [String.toUTF8_eq_toByteArray, ← String.utf8Encode_toList, List.utf8Encode,
    List.toList_data_toByteArray]

/-- Whatever follows two different characters, the bytes of the smaller one decide. -/
theorem utf8EncodeChar_append_lt {c d : Char} (h : c < d) (as bs : List UInt8) :
    String.utf8EncodeChar c ++ as < String.utf8EncodeChar d ++ bs := by
  have hlt : c.val.toNat < d.val.toNat := h
  have hd : d.val.toNat < 0x110000 := d.valid.elim (fun h => Nat.lt_trans h (by decide)) And.right
  unfold String.utf8EncodeChar
  generalize c.val.toNat = v at hlt
  generalize d.val.toNat = w at hlt hd
  dsimp only
  by_cases hlong : 0xffff < v
  · -- both have four bytes, and the first of the digits to the base 64 that differ decides
    have hhigh : v / 262144 < w / 262144 ∨
        v / 262144 = w / 262144 ∧ v / 4096 % 64 ≤ w / 4096 % 64 := by omega
    have hmiddle : v / 4096 < w / 4096 ∨
        v / 4096 = w / 4096 ∧ v / 64 % 64 ≤ w / 64 % 64 := by omega
    have hlow : v / 64 < w / 64 ∨ v / 64 = w / 64 ∧ v % 64 < w % 64 := by omega
    rw [if_neg (by omega), if_neg (by omega), if_neg (by omega), if_neg (by omega),
      if_neg (by omega), if_neg (by omega)]
    simp only [List.cons_append, List.nil_append, List.cons_lt_cons_iff, UInt8.lt_iff_toNat_lt,
      UInt8.toNat_ofNat', ← UInt8.toNat_inj]
    rcases hhigh with hhigh | ⟨hhigh, hhigh'⟩
    · exact Or.inl (by omega)
    refine Or.inr ⟨by omega, ?_⟩
    rcases hmiddle with hmiddle | ⟨hmiddle, hmiddle'⟩
    · exact Or.inl (by omega)
    refine Or.inr ⟨by omega, ?_⟩
    rcases hlow with hlow | ⟨hlow, hlow'⟩
    · exact Or.inl (by omega)
    · exact Or.inr ⟨by omega, Or.inl (by omega)⟩
  · split_ifs
    all_goals
      simp only [List.cons_append, List.nil_append, List.cons_lt_cons_iff, UInt8.lt_iff_toNat_lt,
        UInt8.toNat_ofNat', ← UInt8.toNat_inj]
      omega

theorem bytesOfChars_lt {as bs : List Char} (h : as < bs) : bytesOfChars as < bytesOfChars bs := by
  induction as generalizing bs with
  | nil =>
    cases bs with
    | nil => exact absurd h (List.not_lt_nil [])
    | cons b bs =>
      have hne : String.utf8EncodeChar b ≠ [] := String.utf8EncodeChar_ne_nil
      obtain ⟨byte, bytes, hbytes⟩ := List.exists_cons_of_ne_nil hne
      unfold bytesOfChars
      rw [List.flatMap_cons, hbytes]
      exact List.nil_lt_cons _ _
  | cons a as ih =>
    cases bs with
    | nil => exact absurd h (List.not_lt_nil _)
    | cons b bs =>
      show String.utf8EncodeChar a ++ bytesOfChars as < String.utf8EncodeChar b ++ bytesOfChars bs
      rcases List.cons_lt_cons_iff.1 h with hlt | ⟨rfl, hrest⟩
      · exact utf8EncodeChar_append_lt hlt _ _
      · exact List.append_left_lt (ih hrest)

/-- Two texts stand in the order of their bytes. -/
theorem lt_iff_bytes_lt (a b : String) : a < b ↔ bytes a < bytes b := by
  rw [bytes_eq, bytes_eq]
  constructor
  · exact bytesOfChars_lt
  · intro h
    by_contra hnlt
    by_cases hgt : b < a
    · exact List.lt_asymm h (bytesOfChars_lt hgt)
    · rw [String.le_antisymm hgt hnlt] at h
      exact List.lt_irrefl _ h

end PluralForms.Text
