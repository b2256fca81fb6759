import PluralForms.Proofs.Json.Accepted
import PluralForms.Proofs.Json.Readers

/-!
# What readers take is JSON

A reader recognizes values if whatever it takes off a text is a value, of the kind that it wants or
of any kind. Readers that are built from readers that do recognize values as well, so a text that is
read as a document is one.
-/

namespace PluralForms.Json

variable {α β σ : Type} {cs rest : List Char}

/-- What the reader takes off a text is a value. -/
def Recognizes (read : (cs : List Char) → Reading α cs) : Prop :=
  ∀ {cs : List Char} {t : Taken α cs}, read cs = .ok t → ∃ v : Value, Fronts v.tokens cs t.rest

/-- It does not matter what is made of the value. -/
theorem Recognizes.map {read : (cs : List Char) → Reading α cs} (h : Recognizes read) (f : α → β) :
    Recognizes fun cs => (read cs).map fun t => t.map f := by
  intro cs t ht
  obtain ⟨taken, hread, rfl⟩ := exists_of_map ht
  exact h hread

/-! ### Scalars -/

theorem recognizes_skipValue : Recognizes skipValue := by
  intro cs t h
  obtain ⟨v, ends, hends, hfronts⟩ := exists_value [] cs h
  cases hends with
  | nil =>
    rw [List.append_nil] at hfronts
    exact ⟨v, hfronts⟩

theorem recognizes_readText : Recognizes readText := by
  intro cs t h
  unfold readText at h
  split at h
  · next heq =>
    obtain ⟨taken, hstring, rfl⟩ := exists_of_map h
    obtain ⟨letters, hletters⟩ := exists_letters_of_readString hstring
    exact ⟨.string letters, fronts_quoted heq hletters⟩
  · cases h

theorem Recognizes.readNullable {read : (cs : List Char) → Reading α cs} (h : Recognizes read) :
    Recognizes (readNullable read) := by
  intro cs t ht
  unfold Json.readNullable at ht
  split at ht
  · next heq =>
    obtain ⟨r, hword, rfl⟩ := exists_of_map ht
    exact ⟨.null, fronts_token (heq.trans (congrArg ('n' :: ·) (eq_append_of_readWord hword)))⟩
  · exact h.map some ht

/-! ### Objects -/

/-- The mark in front of a member or an item: a comma, but for the first one. -/
def lead (first : Bool) : List (List Char) := if first then [] else [[',']]

/-- The tokens behind the opening bracket of an object, or behind a member of it. -/
def membersFrom (first : Bool) : List (List Letter × Value) → List (List Char)
  | [] => [['\x7d']]
  | (key, value) :: members =>
    lead first ++ (quoted key :: [':'] :: (value.tokens ++ Value.memberTokens members))

theorem membersFrom_true (members : List (List Letter × Value)) :
    ['\x7b'] :: membersFrom true members = (Value.object members).tokens := by
  cases members <;> rfl

theorem membersFrom_false (members : List (List Letter × Value)) :
    membersFrom false members = Value.memberTokens members := by
  cases members <;> rfl

/-- What stands in front of the rest if there is another key, and what if there is none. -/
theorem fronts_readKey {first : Bool} {t : Taken (Option String) cs}
    (h : readKey first cs = .ok t) :
    match t.value with
    | none => Fronts [['\x7d']] cs t.rest
    | some _ => ∃ letters, Fronts (lead first ++ [quoted letters]) cs t.rest := by
  unfold readKey at h
  split at h
  · cases h
  · next heq =>
    obtain rfl := Except.ok.inj h
    exact fronts_mark heq
  · next heq =>
    split at h
    · next hfirst =>
      obtain ⟨taken, hstring, rfl⟩ := exists_of_map h
      obtain ⟨letters, hletters⟩ := exists_letters_of_readString hstring
      rw [hfirst]
      exact ⟨letters, fronts_quoted heq hletters⟩
    · cases h
  · next heq =>
    split at h
    · cases h
    · next hfirst =>
      split at h
      · cases h
      · next heq' =>
        obtain ⟨taken, hstring, rfl⟩ := exists_of_map h
        obtain ⟨letters, hletters⟩ := exists_letters_of_readString hstring
        rw [Bool.not_eq_true] at hfirst
        rw [hfirst]
        exact ⟨letters, (fronts_mark heq).append (fronts_quoted heq' hletters)⟩
      · cases h
  · cases h

section Objects

variable {admits : σ → String → Bool} {step : σ → String → (cs : List Char) → Reading σ cs}

theorem exists_members (hstep : ∀ state key, Recognizes (step state key)) {first : Bool}
    {state : σ} {t : Taken σ cs} (h : foldMembers admits step first state cs = .ok t) :
    ∃ members, Fronts (membersFrom first members) cs t.rest := by
  induction first, state, cs using foldMembers.induct with
  | case1 first state cs ih =>
    rw [foldMembers] at h
    obtain ⟨⟨key, rest, h₁⟩, hkey, h⟩ := exists_of_bind h
    have hfront := fronts_readKey hkey
    cases key with
    | none =>
      obtain rfl := Except.ok.inj h
      exact ⟨[], hfront⟩
    | some key =>
      obtain ⟨letters, hletters⟩ := hfront
      dsimp only at h
      split at h
      · cases h
      · obtain ⟨⟨⟨⟩, rest', h₂⟩, hcolon, h⟩ := exists_of_bind h
        obtain ⟨⟨state', rest'', h₃⟩, hvalue, h⟩ := exists_of_bind h
        obtain ⟨taken, hmembers, h⟩ := exists_of_bind h
        obtain ⟨value, hvalue⟩ := hstep state key hvalue
        obtain ⟨members, hmembers⟩ := ih rest h₁ rest' h₂ state' rest'' h₃ hmembers
        obtain rfl := Except.ok.inj h
        refine ⟨(letters, value) :: members, ?_⟩
        rw [membersFrom_false] at hmembers
        have hall := hletters.append ((fronts_readColon hcolon).append (hvalue.append hmembers))
        rw [List.append_assoc] at hall
        exact hall

theorem Recognizes.readObject (hstep : ∀ state key, Recognizes (step state key)) (state : σ) :
    Recognizes (readObject admits step state) := by
  intro cs t h
  unfold Json.readObject at h
  split at h
  · next heq =>
    obtain ⟨taken, hfold, rfl⟩ := exists_of_map h
    obtain ⟨members, hmembers⟩ := exists_members hstep hfold
    refine ⟨.object members, ?_⟩
    rw [← membersFrom_true]
    exact (fronts_mark heq).append hmembers
  · cases h

end Objects

/-! ### Arrays -/

theorem lays_blanks {blanks : List Char} (hblanks : IsSpaceRun blanks)
    {tokens : List (List Char)} (h : Lays tokens cs) : Lays tokens (blanks ++ cs) := by
  have hrun : ∀ {blanks'}, IsSpaceRun blanks' → IsSpaceRun (blanks ++ blanks') :=
    fun hblanks' => List.forall_mem_append.2 ⟨hblanks, hblanks'⟩
  cases h with
  | nil hblanks' => exact .nil (hrun hblanks')
  | cons hblanks' hrest =>
    rw [← List.append_assoc]
    exact .cons (hrun hblanks') hrest

theorem fronts_skipSpace (cs : List Char) : Fronts [] cs (skipSpace cs) := by
  intro tokens hlays
  rw [← List.takeWhile_append_dropWhile (p := isSpace) (l := cs)]
  exact lays_blanks (Text.run_takeWhile cs) hlays

theorem fronts_nextItem {first : Bool} {r : Rest cs} (h : nextItem first cs = .ok (some r)) :
    Fronts (lead first) cs r.1 := by
  unfold nextItem at h
  split at h
  · cases h
  · cases h
  · next heq =>
    split at h
    · next hfirst =>
      obtain rfl := Option.some.inj (Except.ok.inj h)
      have hfront := fronts_skipSpace cs
      rw [heq] at hfront
      rw [hfirst]
      exact hfront
    · next hfirst =>
      split at h
      · next hcomma =>
        split at h
        · cases h
        · cases h
        · obtain rfl := Option.some.inj (Except.ok.inj h)
          rw [Bool.not_eq_true] at hfirst
          rw [hfirst]
          subst hcomma
          exact (fronts_mark heq).append (fronts_skipSpace _)
      · cases h

theorem exists_item {read : (cs : List Char) → Reading α cs} (hread : Recognizes read)
    {first : Bool} {t : Taken α cs} (h : readItem first read cs = .ok t) :
    ∃ item : Value, Fronts (lead first ++ item.tokens) cs t.rest := by
  unfold readItem at h
  obtain ⟨next, hnext, h⟩ := exists_of_bind h
  cases next with
  | none => cases h
  | some r =>
    obtain ⟨taken, hitem, h⟩ := exists_of_bind h
    obtain ⟨item, hitem⟩ := hread hitem
    obtain rfl := Except.ok.inj h
    exact ⟨item, (fronts_nextItem hnext).append hitem⟩

theorem fronts_closeArray {t : Taken Unit cs} (h : closeArray cs = .ok t) :
    Fronts [[']']] cs t.rest := by
  unfold closeArray at h
  split at h
  · cases h
  · next heq =>
    obtain rfl := Except.ok.inj h
    exact fronts_mark heq
  · cases h

end PluralForms.Json
