import PluralForms.Proofs.Digits
import PluralForms.Text.Offset

/-!
# Arithmetic that can go wrong

Numbers are unbounded here, but a machine holds them in words of a fixed width, where a sum may be
too large, a difference negative, a divisor zero, and a place of a text beyond its end. A
computation with words is `Checked` if each of its steps looks for that first and fails in such a
case. So what it yields, if it does not fail, was computed by the plain operations, none of which
wrapped around:

    Yields run P : the computation does not fail, and `P` holds of its result

* `Yields.bind` - one computation behind another;
* `add_yields`, `sub_yields`, ... - when a step does not fail, and the number that it yields.

Sizes of texts are words of 64 bits. No text is longer than the greatest signed word, so each text
that is built has to be `Holdable`.
-/

namespace PluralForms

/-- A word of 64 bits, which also counts the bytes of a text. -/
abbrev Word := BitVec 64

/-- What goes wrong in a computation. -/
inductive Trap
  /-- A result is too large for its word. -/
  | overflow
  /-- A difference is negative. -/
  | negative
  /-- There is no remainder by zero. -/
  | zeroDivisor
  /-- A number does not fit the word that it is converted to. -/
  | lossy
  /-- A place is beyond the end of a text, or inside of a character. -/
  | outside
  /-- A text is too long. -/
  | tooLong
  /-- Something stands in for a value that cannot be missing. -/
  | missing
  deriving DecidableEq, Repr

/-- A computation that may go wrong. -/
abbrev Checked := Except Trap

namespace Checked

variable {α β : Type} {bits : Nat}

/-! ### What a computation yields -/

/-- Nothing goes wrong, and `P` holds of the result. -/
def Yields (run : Checked α) (P : α → Prop) : Prop := ∃ a, run = .ok a ∧ P a

theorem yields_pure {P : α → Prop} {a : α} (h : P a) : Yields (pure a) P := ⟨a, rfl, h⟩

theorem Yields.bind {run : Checked α} {next : α → Checked β} {P : α → Prop} {Q : β → Prop}
    (h : Yields run P) (hnext : ∀ a, P a → Yields (next a) Q) : Yields (run >>= next) Q := by
  obtain ⟨a, rfl, ha⟩ := h
  exact hnext a ha

theorem Yields.imp {run : Checked α} {P Q : α → Prop} (h : Yields run P) (himp : ∀ a, P a → Q a) :
    Yields run Q := by
  obtain ⟨a, hrun, ha⟩ := h
  exact ⟨a, hrun, himp a ha⟩

/-- A value that cannot be missing. -/
def expect : Option α → Checked α
  | some a => .ok a
  | none => .error .missing

theorem expect_yields {o : Option α} {a : α} (h : o = some a) : Yields (expect o) (· = a) := by
  subst h
  exact ⟨a, rfl, rfl⟩

/-! ### Words -/

def add (a b : BitVec bits) : Checked (BitVec bits) :=
  if a.uaddOverflow b then .error .overflow else .ok (a + b)

def sub (a b : BitVec bits) : Checked (BitVec bits) :=
  if a.usubOverflow b then .error .negative else .ok (a - b)

def mul (a b : BitVec bits) : Checked (BitVec bits) :=
  if a.umulOverflow b then .error .overflow else .ok (a * b)

def rem (a b : BitVec bits) : Checked (BitVec bits) :=
  if b = 0 then .error .zeroDivisor else .ok (a % b)

def pow (base : BitVec bits) (exponent : BitVec 32) : Checked (BitVec bits) :=
  let power := base.toNat ^ exponent.toNat
  if power < 2 ^ bits then .ok (BitVec.ofNat bits power) else .error .overflow

/-- The same number in a word of another width. -/
def convert (width : Nat) (a : BitVec bits) : Checked (BitVec width) :=
  if a.toNat < 2 ^ width then .ok (a.setWidth width) else .error .lossy

theorem add_yields {a b : BitVec bits} (h : a.toNat + b.toNat < 2 ^ bits) :
    Yields (add a b) (·.toNat = a.toNat + b.toNat) := by
  have hfits : ¬a.uaddOverflow b = true := by simpa [BitVec.uaddOverflow] using h
  exact ⟨a + b, if_neg hfits, BitVec.toNat_add_of_not_uaddOverflow hfits⟩

theorem sub_yields {a b : BitVec bits} (h : b.toNat ≤ a.toNat) :
    Yields (sub a b) (·.toNat = a.toNat - b.toNat) := by
  have hfits : ¬a.usubOverflow b = true := by simpa [BitVec.usubOverflow] using h
  exact ⟨a - b, if_neg hfits, BitVec.toNat_sub_of_not_usubOverflow hfits⟩

theorem mul_yields {a b : BitVec bits} (h : a.toNat * b.toNat < 2 ^ bits) :
    Yields (mul a b) (·.toNat = a.toNat * b.toNat) := by
  have hfits : ¬a.umulOverflow b = true := by simpa [BitVec.umulOverflow] using h
  exact ⟨a * b, if_neg hfits, BitVec.toNat_mul_of_not_umulOverflow hfits⟩

theorem rem_yields {a b : BitVec bits} (h : b ≠ 0) :
    Yields (rem a b) (·.toNat = a.toNat % b.toNat) :=
  ⟨a % b, if_neg h, BitVec.toNat_umod⟩

theorem pow_yields {base : BitVec bits} {exponent : BitVec 32}
    (h : base.toNat ^ exponent.toNat < 2 ^ bits) :
    Yields (pow base exponent) (·.toNat = base.toNat ^ exponent.toNat) :=
  ⟨_, if_pos h, (BitVec.toNat_ofNat _ _).trans (Nat.mod_eq_of_lt h)⟩

theorem convert_yields {width : Nat} {a : BitVec bits} (h : a.toNat < 2 ^ width) :
    Yields (convert width a) (·.toNat = a.toNat) :=
  ⟨a.setWidth width, if_pos h, (BitVec.toNat_setWidth _ _).trans (Nat.mod_eq_of_lt h)⟩

/-! ### Signed words -/

/-- The same number as a signed word. -/
def toSigned (a : Word) : Checked Word := if a.msb then .error .lossy else .ok a

/-- The sum of signed words. -/
def addSigned (a b : Word) : Checked Word :=
  if a.saddOverflow b then .error .overflow else .ok (a + b)

/-- The number of a signed word that is not negative. -/
def toUnsigned? (a : Word) : Option Word := if a.msb then none else some a

theorem toSigned_yields {a : Word} (h : a.toNat < 2 ^ (63 : Nat)) :
    Yields (toSigned a) (·.toInt = a.toNat) := by
  have hmsb : a.msb = false := by
    rw [BitVec.msb_eq_decide, decide_eq_false_iff_not]
    omega
  exact ⟨a, by rw [toSigned, hmsb]; rfl, BitVec.toInt_eq_toNat_of_msb hmsb⟩

theorem addSigned_yields {a b : Word} (hlow : -2 ^ (63 : Nat) ≤ a.toInt + b.toInt)
    (hhigh : a.toInt + b.toInt < 2 ^ (63 : Nat)) :
    Yields (addSigned a b) (·.toInt = a.toInt + b.toInt) := by
  have hfits : ¬a.saddOverflow b = true := by
    simp only [BitVec.saddOverflow, Bool.or_eq_true, decide_eq_true_eq]
    omega
  exact ⟨a + b, if_neg hfits, BitVec.toInt_add_of_not_saddOverflow hfits⟩

theorem toUnsigned?_of_nonneg {a : Word} (h : 0 ≤ a.toInt) :
    toUnsigned? a = some a ∧ (a.toNat : Int) = a.toInt := by
  have hmsb : a.msb = false := by
    rw [BitVec.msb_eq_toInt, decide_eq_false_iff_not]
    omega
  exact ⟨by rw [toUnsigned?, hmsb]; rfl, (BitVec.toInt_eq_toNat_of_msb hmsb).symm⟩

/-- The absolute value of a signed word, which always fits a word. -/
theorem toNat_abs (a : BitVec bits) : a.abs.toNat = a.toInt.natAbs := by
  have hlt := a.isLt
  have hmsb := BitVec.msb_eq_toInt (x := a)
  rw [BitVec.toNat_abs]
  rw [BitVec.toInt_eq_msb_cond] at hmsb ⊢
  split <;> omega

end Checked

/-! ### Texts -/

namespace Text

/-- The length of the text fits a signed word. -/
def Holdable (cs : List Char) : Prop := byteLength cs < 2 ^ (63 : Nat)

instance (cs : List Char) : Decidable (Holdable cs) := inferInstanceAs (Decidable (_ < _))

/-- The parts of `cs` in front of a place that is counted in bytes and behind it; none if there is
no such place between two characters. -/
def cutBytes : Nat → List Char → Option (List Char × List Char)
  | 0, cs => some ([], cs)
  | _ + 1, [] => none
  | k + 1, c :: cs =>
    if c.utf8Size ≤ k + 1 then
      (cutBytes (k + 1 - c.utf8Size) cs).map fun (front, back) => (c :: front, back)
    else none

theorem cutBytes_append (front back : List Char) :
    cutBytes (byteLength front) (front ++ back) = some (front, back) := by
  induction front with
  | nil => cases back <;> rfl
  | cons c front ih =>
    have hpos : 0 < c.utf8Size := c.utf8Size_pos
    obtain ⟨k, hk⟩ := Nat.exists_eq_add_one_of_ne_zero (n := byteLength (c :: front))
      (by rw [byteLength_cons]; omega)
    have hrest : k + 1 - c.utf8Size = byteLength front := by
      rw [← hk, byteLength_cons, Nat.add_sub_cancel_left]
    rw [hk, List.cons_append, cutBytes, hrest, ih, if_pos (by rw [← hk, byteLength_cons]; omega)]
    rfl

theorem byteLength_of_isDigits {ds : List Char} (h : IsDigits ds) : byteLength ds = ds.length := by
  induction ds with
  | nil => rfl
  | cons d ds ih =>
    have hd : d.utf8Size = 1 := by
      have hrange := Char.isDigit_iff_toNat.1 (h d List.mem_cons_self)
      have h9 : '9'.toNat = 57 := rfl
      rw [Char.utf8Size_eq_one_iff, UInt32.le_iff_toNat_le]
      show d.toNat ≤ 127
      omega
    rw [byteLength_cons, hd, ih fun c hc => h c (List.mem_cons_of_mem d hc), List.length_cons,
      Nat.add_comm]

end Text

/-- A number in digits, perhaps with a plus sign in front, if it fits a word. -/
def Word.read (cs : List Char) : Option Word :=
  let ds := if cs.head? = some '+' then cs.tail else cs
  if ds ≠ [] ∧ ds.all Char.isDigit ∧ digitsValue ds ≤ maxWord then
    some (BitVec.ofNat 64 (digitsValue ds))
  else none

theorem Word.read_of_isDigits {ds : List Char} (hne : ds ≠ []) (hds : IsDigits ds) :
    Word.read ds =
      if digitsValue ds ≤ maxWord then some (BitVec.ofNat 64 (digitsValue ds)) else none := by
  have hplus : ds.head? ≠ some '+' := fun h => absurd (hds '+' (List.mem_of_head? h)) (by decide)
  have hall : ds.all Char.isDigit = true := List.all_eq_true.2 hds
  unfold Word.read
  rw [if_neg hplus]
  simp only [hne, hall, ne_eq, not_false_eq_true, true_and]

namespace Checked

open Text

/-- A text, put together. -/
def build (cs : List Char) : Checked (List Char) :=
  if Holdable cs then .ok cs else .error .tooLong

/-- The length of a text. -/
def size (cs : List Char) : Checked Word :=
  if Holdable cs then .ok (BitVec.ofNat 64 (byteLength cs)) else .error .tooLong

/-- So many zeros. -/
def zeros (count : Word) : Checked (List Char) := build (List.replicate count.toNat '0')

/-- The parts of a text around a place. -/
def cut (cs : List Char) (place : Word) : Checked (List Char × List Char) :=
  match cutBytes place.toNat cs with
  | some parts => .ok parts
  | none => .error .outside

theorem build_yields {cs : List Char} (h : Holdable cs) : Yields (build cs) (· = cs) :=
  ⟨cs, if_pos h, rfl⟩

theorem size_yields {cs : List Char} (h : Holdable cs) :
    Yields (size cs) (·.toNat = byteLength cs) := by
  have hlt : byteLength cs < 2 ^ 64 := Nat.lt_trans h (by decide)
  exact ⟨_, if_pos h, (BitVec.toNat_ofNat _ _).trans (Nat.mod_eq_of_lt hlt)⟩

theorem zeros_yields {count : Word} (h : count.toNat < 2 ^ (63 : Nat)) :
    Yields (zeros count) (· = List.replicate count.toNat '0') := by
  apply build_yields
  unfold Holdable
  rwa [byteLength_of_isDigits (isDigits_replicate_zero _), List.length_replicate]

theorem cut_yields {front back : List Char} {place : Word}
    (h : place.toNat = byteLength front) :
    Yields (cut (front ++ back) place) (· = (front, back)) :=
  ⟨(front, back), by rw [cut, h, cutBytes_append], rfl⟩

/-- Digits can be cut anywhere, since each of them is one byte. -/
theorem cut_digits_yields {ds : List Char} {place : Word} (hds : IsDigits ds)
    (hle : place.toNat ≤ ds.length) :
    Yields (cut ds place) (· = (ds.take place.toNat, ds.drop place.toNat)) := by
  have hbytes : place.toNat = byteLength (ds.take place.toNat) := by
    rw [byteLength_of_isDigits fun c hc => hds c (List.mem_of_mem_take hc), List.length_take]
    omega
  have hparts : Yields (cut (ds.take place.toNat ++ ds.drop place.toNat) place)
      (· = (ds.take place.toNat, ds.drop place.toNat)) := cut_yields hbytes
  rwa [List.take_append_drop] at hparts

end Checked

end PluralForms
