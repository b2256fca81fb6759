import PluralForms.Text.Split

/-!
# Byte offsets

Places in a text are counted in bytes of its UTF-8 form, while texts are walked by characters. The
length of a stretch of text is therefore the sum of the widths of its characters, and an occurrence
found by walking carries the number of bytes before it.

* `mem_places` - a place has the text before it, whose bytes are counted, and the text behind it.
-/

namespace PluralForms.Text

/-- The number of bytes of the UTF-8 form of `cs`. -/
def byteLength : List Char → Nat
  | [] => 0
  | c :: cs => c.utf8Size + byteLength cs

@[simp] theorem byteLength_nil : byteLength [] = 0 := rfl

@[simp] theorem byteLength_cons (c : Char) (cs : List Char) :
    byteLength (c :: cs) = c.utf8Size + byteLength cs :=
  rfl

@[simp] theorem byteLength_append (as bs : List Char) :
    byteLength (as ++ bs) = byteLength as + byteLength bs := by
  induction as with
  | nil => simp
  | cons a as ih => simp [ih, Nat.add_assoc]

/-- A stretch of text: how many bytes stand before it, and how many it takes. -/
structure Span where
  offset : Nat
  length : Nat
  deriving DecidableEq, Repr

/-- A place in a text: the character before it, the bytes before it, and the text behind it. -/
structure Place where
  before : Option Char
  offset : Nat
  rest : List Char

/-- Every place of `cs`, its end included, from left to right. -/
def placesFrom (before : Option Char) (offset : Nat) : List Char → List Place
  | [] => [⟨before, offset, []⟩]
  | c :: cs => ⟨before, offset, c :: cs⟩ :: placesFrom (some c) (offset + c.utf8Size) cs

/-- Every place of `cs`, its end included, from left to right. -/
def places (cs : List Char) : List Place := placesFrom none 0 cs

/-- The places that begin with `word`, from left to right, none inside the occurrence before it;
the first `skip` places are passed over. -/
def occurrencesFrom (word : List Char) : Nat → List Place → List Place
  | _, [] => []
  | skip + 1, _ :: ps => occurrencesFrom word skip ps
  | 0, p :: ps =>
    if word.isPrefixOf p.rest then p :: occurrencesFrom word (word.length - 1) ps
    else occurrencesFrom word 0 ps

/-- The occurrences of `word` in `cs`, without overlap. The empty word occurs at every place. -/
def occurrences (word cs : List Char) : List Place := occurrencesFrom word 0 (places cs)

/-- The stretch that `word` takes where it begins at a place. -/
def Place.span (p : Place) (word : List Char) : Span := ⟨p.offset, byteLength word⟩

/-! ### Places and the text around them -/

theorem mem_placesFrom {before : Option Char} {offset : Nat} {cs : List Char} {p : Place}
    (h : p ∈ placesFrom before offset cs) :
    ∃ front, cs = front ++ p.rest ∧ p.offset = offset + byteLength front
      ∧ p.before = (front.getLast?).or before := by
  induction cs generalizing before offset with
  | nil =>
    obtain rfl : p = ⟨before, offset, []⟩ := by simpa [placesFrom] using h
    exact ⟨[], by simp⟩
  | cons c cs ih =>
    rcases List.mem_cons.1 h with rfl | h
    · exact ⟨[], by simp⟩
    · obtain ⟨front, rfl, ho, hb⟩ := ih h
      refine ⟨c :: front, rfl, by simp [ho, Nat.add_assoc], ?_⟩
      cases front <;> simp_all [List.getLast?_cons]

theorem mem_places {cs : List Char} {p : Place} (h : p ∈ places cs) :
    ∃ front, cs = front ++ p.rest ∧ p.offset = byteLength front ∧ p.before = front.getLast? := by
  obtain ⟨front, hcs, ho, hb⟩ := mem_placesFrom h
  exact ⟨front, hcs, by simpa using ho, by simpa using hb⟩

theorem mem_occurrencesFrom {word : List Char} {skip : Nat} {ps : List Place} {p : Place}
    (h : p ∈ occurrencesFrom word skip ps) : p ∈ ps ∧ word.isPrefixOf p.rest = true := by
  induction ps generalizing skip with
  | nil => cases skip <;> simp [occurrencesFrom] at h
  | cons q ps ih =>
    cases skip with
    | succ skip => exact ⟨List.mem_cons_of_mem _ (ih h).1, (ih h).2⟩
    | zero =>
      unfold occurrencesFrom at h
      split at h
      · next hq =>
        rcases List.mem_cons.1 h with rfl | h
        · exact ⟨List.mem_cons_self, hq⟩
        · exact ⟨List.mem_cons_of_mem _ (ih h).1, (ih h).2⟩
      · exact ⟨List.mem_cons_of_mem _ (ih h).1, (ih h).2⟩

end PluralForms.Text
