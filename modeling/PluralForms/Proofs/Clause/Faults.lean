import PluralForms.Proofs.Clause.Rendering
import PluralForms.Proofs.Text.Stretches

/-!
# Where a fault stands

A clause that is malformed is reported with a fault and a column, which counts bytes from 1. The
reader may have come farther than the column: what is optional and does not fit is given back, and
the fault stands where that part would have begun. In front of an unexpected character, that is
behind a clause.

    readChars_eq_malformed_iff : the column counts the blanks of the text and what was read
    readChars_surrounded : blanks in front of the text are added to the column

* `read_malformed` - the two together, and what the messages tell.
-/

namespace PluralForms

/-! ### Messages -/

namespace Fault

theorem message_unexpected (c : Char) :
    (unexpected c).message = "unexpected character '" ++ String.singleton c ++ "'" :=
  rfl

theorem toList_message_unexpected (c : Char) :
    (unexpected c).message.toList = "unexpected character '".toList ++ [c, '\''] := by
  have hquote : "'".toList = ['\''] := by decide +kernel
  rw [message_unexpected, String.toList_append, String.toList_append, String.toList_singleton,
    hquote, List.append_assoc, List.singleton_append]

/-- The message of a fault that names a part begins with `invalid`. -/
theorem head?_message {fault : Fault} (h : fault.NamesPart) :
    fault.message.toList.head? = some 'i' := by
  cases fault with
  | unexpected c => exact h.elim
  | endOfClause => exact h.elim
  | _ => decide +kernel

theorem message_unexpected_ne_endOfClause (c : Char) :
    (unexpected c).message ≠ endOfClause.message := by
  intro h
  -- the two differ in the first letter of their second word
  have htwelve : "unexpected character '".toList.take 12 =
      "unexpected end of clause".toList.take 12 := by
    have hchars : (unexpected c).message.toList = "unexpected end of clause".toList :=
      congrArg String.toList h
    rw [← hchars, toList_message_unexpected, List.take_append_of_le_length (by decide +kernel)]
  exact absurd htwelve (by decide +kernel)

theorem message_eq_unexpected_iff {fault : Fault} {c : Char} :
    fault.message = (unexpected c).message ↔ fault = .unexpected c := by
  refine ⟨fun h => ?_, fun h => h ▸ rfl⟩
  by_cases hpart : fault.NamesPart
  · have hhead := head?_message hpart
    rw [h, toList_message_unexpected, List.head?_append_of_ne_nil _ (by decide +kernel)] at hhead
    exact absurd hhead (by decide +kernel)
  · cases fault with
    | unexpected d =>
      have hchars := congrArg String.toList h
      rw [toList_message_unexpected, toList_message_unexpected] at hchars
      simpa using hchars
    | endOfClause => exact absurd h.symm (message_unexpected_ne_endOfClause c)
    | _ => exact absurd trivial hpart

theorem message_eq_endOfClause_iff {fault : Fault} :
    fault.message = endOfClause.message ↔ fault = .endOfClause := by
  refine ⟨fun h => ?_, fun h => h ▸ rfl⟩
  by_cases hpart : fault.NamesPart
  · have hhead := head?_message hpart
    rw [h] at hhead
    exact absurd hhead (by decide +kernel)
  · cases fault with
    | unexpected c => exact absurd h (message_unexpected_ne_endOfClause c)
    | endOfClause => rfl
    | _ => exact absurd trivial hpart

end Fault

namespace Relation

/-! ### In front of a fault -/

theorem ComesTo.exists_front {cs rest : List Char} {fault : Fault}
    (h : ComesTo cs (.error (fault, rest))) : ∃ front, cs = front ++ rest := by
  cases h with
  | unexpected hcs _ => exact ⟨_, hcs⟩
  | fault front hcs _ => exact ⟨front, hcs⟩

/-- What stands in front of an unexpected character is a clause. -/
theorem ComesTo.writes_front {front rest : List Char} {c : Char}
    (h : ComesTo (front ++ rest) (.error (.unexpected c, rest))) :
    rest.head? = some c ∧ ∃ r, Writes front r := by
  cases h with
  | unexpected hcs hwrites =>
    exact ⟨rfl, _, List.append_cancel_right hcs ▸ hwrites⟩
  | fault _ _ hpart => exact hpart.elim

/-- Where no part is named, a character follows: the end of a clause is never unexpected. -/
theorem ComesTo.ne_endOfClause {cs rest : List Char} {fault : Fault}
    (h : ComesTo cs (.error (fault, rest))) : fault ≠ .endOfClause := by
  rintro rfl
  cases h with
  | fault _ _ hpart => exact hpart.elim

/-! ### Columns -/

/-- The fault stands behind a beginning of the text without its blanks, and the column counts the
bytes in front of it. -/
theorem readChars_eq_malformed_iff {cs : List Char} {column : Nat} {fault : Fault} :
    readChars cs = .error (.malformed column fault) ↔
      ∃ front rest, Text.trim cs = front ++ rest ∧
        readForm (Text.trim cs) = .error (fault, rest) ∧
        column = Text.byteLength (Text.leadingBlanks cs) + Text.byteLength front + 1 := by
  unfold readChars
  dsimp only
  cases hform : readForm (Text.trim cs) with
  | ok r =>
    have hvalid := validate_ne_malformed r column fault
    constructor
    · intro h
      exact absurd h hvalid
    · rintro ⟨front, rest, -, h, -⟩
      simp at h
  | error e =>
    obtain ⟨fault', rest'⟩ := e
    obtain ⟨front', hfront'⟩ := (hform ▸ comesTo_readForm (Text.trim cs)).exists_front
    have hbytes : Text.byteLength (Text.trim cs) - Text.byteLength rest' =
        Text.byteLength front' := by
      rw [hfront', Text.byteLength_append, Nat.add_sub_cancel]
    simp only [Except.error.injEq, ClauseError.malformed.injEq, Prod.mk.injEq, hbytes]
    constructor
    · rintro ⟨rfl, rfl⟩
      exact ⟨front', rest', hfront', ⟨rfl, rfl⟩, rfl⟩
    · rintro ⟨front, rest, hfront, ⟨rfl, rfl⟩, rfl⟩
      have hsame : front = front' := List.append_cancel_right (hfront.symm.trans hfront')
      exact ⟨by rw [hsame], rfl⟩

/-- Blanks around a text that is not blank itself only move the column. -/
theorem readChars_surrounded {front cs back : List Char} {column : Nat} {fault : Fault}
    (hfront : Text.IsBlankRun front) (hback : Text.IsBlankRun back) (hcs : ¬Text.IsBlankRun cs)
    (h : readChars cs = .error (.malformed column fault)) :
    readChars (front ++ (cs ++ back)) =
      .error (.malformed (column + Text.byteLength front) fault) := by
  rw [readChars_eq_malformed_iff] at h ⊢
  obtain ⟨clause, rest, htrim, hform, rfl⟩ := h
  rw [Text.trim_surrounded hfront hback, Text.leadingBlanks_surrounded hfront hcs,
    Text.byteLength_append]
  exact ⟨clause, rest, htrim, hform, by omega⟩

/-- Byte `column - 1` of the text stands behind `clause` and in front of `rest`, and these two are
the text without the blanks around it. -/
structure Located (text : List Char) (column : Nat) (clause rest : List Char) : Prop where
  trimmed : Text.trim text = clause ++ rest
  boundary : text = Text.leadingBlanks text ++ clause ++ (rest ++ Text.Stretch.trailingBlanks text)
  counted : column = Text.byteLength (Text.leadingBlanks text ++ clause) + 1
  behind_blanks : Text.byteLength (Text.leadingBlanks text) ≤ column - 1
  before_end : column - 1 ≤ Text.byteLength (Text.leadingBlanks text ++ Text.trim text)

theorem located_of_trim {text clause rest : List Char} (h : Text.trim text = clause ++ rest) :
    Located text (Text.byteLength (Text.leadingBlanks text) + Text.byteLength clause + 1)
      clause rest where
  trimmed := h
  boundary := by
    rw [List.append_assoc, ← List.append_assoc clause, ← h, Text.Stretch.trim_between_blanks]
  counted := by rw [Text.byteLength_append]
  behind_blanks := by omega
  before_end := by
    rw [h, Text.byteLength_append, Text.byteLength_append]
    omega

/-- The column of a malformed clause is that of a character of it, or of its end. If a character is
called unexpected, it is the one that stands there, and the clause in front of it is not malformed.
No fault is an unexpected end. More blanks around the text are only counted. -/
theorem read_malformed {text : String} {column : Nat} {fault : Fault}
    (h : read text = .error (.malformed column fault)) :
    (∃ clause rest, Located text.toList column clause rest ∧
      ∀ c, fault.message = "unexpected character '" ++ String.singleton c ++ "'" →
        rest.head? = some c ∧
          ∀ column' fault', read (String.ofList clause) ≠ .error (.malformed column' fault')) ∧
    fault.message ≠ "unexpected end of clause" ∧
    (¬Text.IsBlankRun text.toList → ∀ before behind : String,
      Text.IsBlankRun before.toList → Text.IsBlankRun behind.toList →
        read (before ++ text ++ behind) =
          .error (.malformed (column + Text.byteLength before.toList) fault)) := by
  refine ⟨?_, ?_, ?_⟩
  · obtain ⟨clause, rest, htrim, hform, rfl⟩ := readChars_eq_malformed_iff.1 h
    refine ⟨clause, rest, located_of_trim htrim, fun c hc => ?_⟩
    obtain rfl := Fault.message_eq_unexpected_iff.1 hc
    have hcomes := hform ▸ comesTo_readForm (Text.trim text.toList)
    rw [htrim] at hcomes
    obtain ⟨hhead, r, hwrites⟩ := hcomes.writes_front
    refine ⟨hhead, fun column' fault' => ?_⟩
    rw [read, String.toList_ofList, readChars_of_writes (r := r)]
    · exact validate_ne_malformed r column' fault'
    · rwa [Text.trim_eq_self (trimmed_of_writes hwrites)]
  · obtain ⟨clause, rest, -, hform, -⟩ := readChars_eq_malformed_iff.1 h
    have hcomes := hform ▸ comesTo_readForm (Text.trim text.toList)
    exact mt Fault.message_eq_endOfClause_iff.1 hcomes.ne_endOfClause
  · intro htext before behind hbefore hbehind
    rw [read, String.toList_append, String.toList_append, List.append_assoc]
    exact readChars_surrounded hbefore hbehind htext h

/-- The end of a range is given back with its points, the first of which is then unexpected. The
blank in front takes two bytes. In front of the points stands a clause, if one that is refused. -/
theorem read_malformed_rangeEnd :
    read "\u00a0i % 0 = 1..é" = .error (.malformed 12 (.unexpected '.')) ∧
    (∃ clause rest, Located "\u00a0i % 0 = 1..é".toList 12 clause rest ∧ rest.head? = some '.' ∧
      ∀ column fault, read (String.ofList clause) ≠ .error (.malformed column fault)) ∧
    (¬Text.IsBlankRun "\u00a0i % 0 = 1..é".toList ∧ Text.IsBlankRun "\t".toList) ∧
    read ("\t" ++ "\u00a0i % 0 = 1..é" ++ "\t") = .error (.malformed 13 (.unexpected '.')) := by
  have hread : read "\u00a0i % 0 = 1..é" = .error (.malformed 12 (.unexpected '.')) := by
    decide +kernel
  have htext : ¬Text.IsBlankRun "\u00a0i % 0 = 1..é".toList := by decide +kernel
  have htab : Text.IsBlankRun "\t".toList := by decide +kernel
  obtain ⟨⟨clause, rest, hlocated, hunexpected⟩, -, hmoved⟩ := read_malformed hread
  obtain ⟨hhead, hclause⟩ := hunexpected '.' rfl
  exact ⟨hread, ⟨clause, rest, hlocated, hhead, hclause⟩, ⟨htext, htab⟩,
    hmoved htext "\t" "\t" htab htab⟩

end Relation

end PluralForms
