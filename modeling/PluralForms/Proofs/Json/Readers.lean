import PluralForms.Proofs.Json.Skipping

/-!
# What readers make of documents

A reader of one kind of value has a meaning, which says what it makes of a value and of which values
it makes nothing. It implements the meaning if this is what it takes off every layout of the value,
up to the last token and no further. Readers that are built from readers implement what is built
from their meanings, so nothing about blanks and tokens is left to say of a reader of documents:

    implements_readText        : a string
    Implements.readNullable    : a value, or null
    Implements.readObject      : what is gathered from the members of an object
    Implements.readItem_first, Implements.readItem_next : the items of an array
-/

namespace PluralForms.Json

variable {α σ : Type} {cs : List Char} {tokens : List (List Char)}

/-- The reader makes of each value what `meaning` says. -/
def Implements (read : (cs : List Char) → Reading α cs) (meaning : Value → Option α) : Prop :=
  ∀ {v : Value} {tokens : List (List Char)} {cs : List Char}, Lays (v.tokens ++ tokens) cs →
    Stops tokens → Agrees (read cs) (meaning v) tokens

/-! ### Taking over what was read -/

/-- The value may be changed, and be read off a longer text. -/
theorem Agrees.map {β : Type} {ds : List Char} {r : Reading α cs} {value? : Option α}
    (h : Agrees r value? tokens) {f : Taken α cs → Taken β ds} {g : α → β}
    (hf : ∀ t, (f t).value = g t.value ∧ (f t).rest = t.rest) :
    Agrees (r.map f) (value?.map g) tokens := by
  cases value? with
  | none =>
    obtain ⟨fault, rfl⟩ := outcome_eq_none h
    rfl
  | some value =>
    obtain ⟨rest, hsome, hrest⟩ := h
    obtain ⟨shorter, rfl⟩ := outcome_eq_some hsome
    refine ⟨rest, ?_, hrest⟩
    obtain ⟨hvalue, hleft⟩ := hf ⟨value, rest, shorter⟩
    show some ((f _).value, (f _).rest) = _
    rw [hvalue, hleft]

/-- The same value, read off a longer text. -/
theorem Agrees.longer {ds : List Char} {r : Reading α cs} {value? : Option α}
    (h : Agrees r value? tokens) {f : Taken α cs → Taken α ds}
    (hf : ∀ t, (f t).value = t.value ∧ (f t).rest = t.rest) :
    Agrees (r.map f) value? tokens := by
  simpa using h.map (g := id) hf

/-- What is read next is read off what is left. -/
theorem Agrees.bind {β : Type} {ds : List Char} {tokens' : List (List Char)} {r : Reading α cs}
    {value? : Option α} (h : Agrees r value? tokens) {next : Taken α cs → Reading β ds}
    {g : α → Option β}
    (hnext : ∀ t, Lays tokens t.rest → Agrees (next t) (g t.value) tokens') :
    Agrees (r >>= next) (value?.bind g) tokens' := by
  cases value? with
  | none =>
    obtain ⟨fault, rfl⟩ := outcome_eq_none h
    rfl
  | some value =>
    obtain ⟨rest, hsome, hrest⟩ := h
    obtain ⟨shorter, rfl⟩ := outcome_eq_some hsome
    exact hnext ⟨value, rest, shorter⟩ hrest

/-- Nothing is read behind a fault. -/
theorem Agrees.fault {β : Type} {ds : List Char} {tokens' : List (List Char)} {r : Reading α cs}
    (h : Agrees r none tokens) (next : Taken α cs → Reading β ds) :
    Agrees (r >>= next) none tokens' := by
  obtain ⟨fault, rfl⟩ := outcome_eq_none h
  rfl

/-- Behind what is read only to get past it. -/
theorem Agrees.past {β : Type} {ds : List Char} {tokens' : List (List Char)} {r : Reading Unit cs}
    (h : Agrees r (some ()) tokens) {next : Taken Unit cs → Reading β ds} {value? : Option β}
    (hnext : ∀ t, Lays tokens t.rest → Agrees (next t) value? tokens') :
    Agrees (r >>= next) value? tokens' :=
  h.bind (g := fun _ => value?) hnext

/-! ### Scalars -/

theorem implements_skipValue : Implements skipValue fun _ => some () :=
  fun h hstops => skipValue_of_lays h hstops

/-- The text of a string value. -/
def Value.text? : Value → Option String
  | .string letters => textOf letters
  | _ => none

theorem agrees_readString {letters : List Letter} {rest : List Char} (h : Lays tokens rest) :
    Agrees (readString (unquoted letters rest)) (decode letters) tokens := by
  have hread := outcome_readString letters rest
  cases hdecode : decode letters with
  | none =>
    rw [hdecode] at hread
    exact hread
  | some text =>
    rw [hdecode] at hread
    exact ⟨rest, hread, h⟩

theorem implements_readText : Implements readText Value.text? := by
  intro v tokens cs h hstops
  obtain ⟨c, more, hspace, hc⟩ := exists_opening h
  unfold readText
  split
  · next heq =>
    obtain ⟨rfl, -⟩ := List.cons.inj (hspace.symm.trans heq)
    obtain ⟨letters, rfl⟩ := hc.string rfl
    obtain ⟨rest, hquoted, hrest⟩ := skipSpace_of_lays_quoted h
    obtain ⟨-, rfl⟩ := List.cons.inj (hquoted.symm.trans heq)
    exact (agrees_readString hrest).map fun t => ⟨rfl, rfl⟩
  · next hother =>
    cases v with
    | string letters =>
      obtain ⟨rest, hquoted, -⟩ := skipSpace_of_lays_quoted h
      exact (hother _ hquoted).elim
    | _ => rfl

/-! ### Values that may be absent -/

/-- A value, or nothing if it is `null`. -/
def Value.nullable? (meaning : Value → Option α) : Value → Option (Option α)
  | .null => some none
  | v => (meaning v).map some

theorem Implements.readNullable {read : (cs : List Char) → Reading α cs}
    {meaning : Value → Option α} (h : Implements read meaning) :
    Implements (readNullable read) (Value.nullable? meaning) := by
  intro v tokens cs hlays hstops
  obtain ⟨c, more, hspace, hc⟩ := exists_opening hlays
  unfold Json.readNullable
  split
  · next heq =>
    obtain ⟨rfl, -⟩ := List.cons.inj (hspace.symm.trans heq)
    obtain rfl := hc.null rfl
    obtain ⟨rest, hnull, hrest⟩ := skipSpace_of_lays hlays (by decide)
    obtain ⟨-, rfl⟩ := List.cons.inj (hnull.symm.trans heq)
    exact ⟨rest, rfl, hrest⟩
  · next hother =>
    have hread := (h hlays hstops).map (f := fun t => t.map some) (g := some) fun t => ⟨rfl, rfl⟩
    cases v with
    | null =>
      obtain ⟨rest, hnull, -⟩ := skipSpace_of_lays hlays (by decide)
      exact (hother _ hnull).elim
    | _ => exact hread

/-! ### Objects -/

/-- What is gathered from the members of an object. -/
def foldMembers? (admits : σ → String → Bool) (meaning : σ → String → Value → Option σ) :
    σ → List (List Letter × Value) → Option σ
  | state, [] => some state
  | state, (letters, value) :: members =>
    (textOf letters).bind fun key =>
      if admits state key then
        (meaning state key value).bind fun state => foldMembers? admits meaning state members
      else none

theorem readKey_end (first : Bool) (h : Lays (['\x7d'] :: tokens) cs) :
    Agrees (readKey first cs) (some none) tokens := by
  obtain ⟨rest, hspace, hrest⟩ := skipSpace_of_lays_mark h (by decide)
  refine ⟨rest, ?_, hrest⟩
  unfold readKey
  split
  · next heq => exact absurd (hspace.symm.trans heq) (List.cons_ne_nil _ _)
  · next heq =>
    obtain ⟨-, rfl⟩ := List.cons.inj (hspace.symm.trans heq)
    rfl
  · next heq => exact absurd (List.cons.inj (hspace.symm.trans heq)).1 (by decide)
  · next heq => exact absurd (List.cons.inj (hspace.symm.trans heq)).1 (by decide)
  · next hend _ _ => exact (hend _ hspace).elim

theorem readKey_first {letters : List Letter} (h : Lays (quoted letters :: tokens) cs) :
    Agrees (readKey true cs) ((textOf letters).map some) tokens := by
  obtain ⟨rest, hspace, hrest⟩ := skipSpace_of_lays_quoted h
  unfold readKey
  split
  · next heq => exact absurd (hspace.symm.trans heq) (List.cons_ne_nil _ _)
  · next heq => exact absurd (List.cons.inj (hspace.symm.trans heq)).1 (by decide)
  · next heq =>
    obtain ⟨-, rfl⟩ := List.cons.inj (hspace.symm.trans heq)
    rw [if_pos rfl]
    unfold textOf
    rw [Option.map_map]
    exact (agrees_readString hrest).map fun t => ⟨rfl, rfl⟩
  · next heq => exact absurd (List.cons.inj (hspace.symm.trans heq)).1 (by decide)
  · next hkey _ => exact (hkey _ hspace).elim

theorem readKey_next {letters : List Letter} (h : Lays ([','] :: quoted letters :: tokens) cs) :
    Agrees (readKey false cs) ((textOf letters).map some) tokens := by
  obtain ⟨rest, hspace, hrest⟩ := skipSpace_of_lays_mark h (by decide)
  obtain ⟨rest', hspace', hrest'⟩ := skipSpace_of_lays_quoted hrest
  unfold readKey
  split
  · next heq => exact absurd (hspace.symm.trans heq) (List.cons_ne_nil _ _)
  · next heq => exact absurd (List.cons.inj (hspace.symm.trans heq)).1 (by decide)
  · next heq => exact absurd (List.cons.inj (hspace.symm.trans heq)).1 (by decide)
  · next heq =>
    obtain ⟨-, rfl⟩ := List.cons.inj (hspace.symm.trans heq)
    rw [if_neg Bool.false_ne_true]
    split
    · next heq' => exact absurd (hspace'.symm.trans heq') (List.cons_ne_nil _ _)
    · next heq' =>
      obtain ⟨-, rfl⟩ := List.cons.inj (hspace'.symm.trans heq')
      unfold textOf
      rw [Option.map_map]
      exact (agrees_readString hrest').map fun t => ⟨rfl, rfl⟩
    · next hkey => exact (hkey _ hspace').elim
  · next hcomma => exact (hcomma _ hspace).elim

theorem agrees_readColon (h : Lays ([':'] :: tokens) cs) :
    Agrees (readColon cs) (some ()) tokens := by
  obtain ⟨rest, hspace, hrest⟩ := skipSpace_of_lays_mark h (by decide)
  exact ⟨rest, outcome_readColon hspace, hrest⟩

section Objects

variable {admits : σ → String → Bool} {step : σ → String → (cs : List Char) → Reading σ cs}
  {meaning : σ → String → Value → Option σ}

/-- One member, behind whatever mark stands in front of its key. -/
theorem foldMembers_member (hstep : ∀ state key, Implements (step state key) (meaning state key))
    {first : Bool} {letters : List Letter} {value : Value} {members : List (List Letter × Value)}
    (hkey : Agrees (readKey first cs) ((textOf letters).map some)
      ([':'] :: (value.tokens ++ (Value.memberTokens members ++ tokens))))
    (hmembers : ∀ {state cs}, Lays (Value.memberTokens members ++ tokens) cs →
      Agrees (foldMembers admits step false state cs) (foldMembers? admits meaning state members)
        tokens) (state : σ) :
    Agrees (foldMembers admits step first state cs)
      (foldMembers? admits meaning state ((letters, value) :: members)) tokens := by
  rw [foldMembers, foldMembers?]
  cases htext : textOf letters with
  | none =>
    rw [htext] at hkey
    obtain ⟨fault, hread⟩ := outcome_eq_none hkey
    rw [hread]
    rfl
  | some key =>
    rw [htext] at hkey
    obtain ⟨rest, hsome, hrest⟩ := hkey
    obtain ⟨_, hread⟩ := outcome_eq_some hsome
    rw [hread]
    simp only [bind, Except.bind, Option.bind_some]
    cases hadmits : admits state key with
    | false => rfl
    | true =>
      simp only [Bool.not_true, Bool.false_eq_true, if_false, if_true]
      refine Agrees.past (agrees_readColon hrest) fun colon hcolon => ?_
      refine Agrees.bind (hstep state key hcolon (stops_memberTokens members tokens))
        fun taken htaken => ?_
      exact (hmembers htaken).longer fun t => ⟨rfl, rfl⟩

theorem foldMembers_end (first : Bool) (state : σ) (h : Lays (['\x7d'] :: tokens) cs) :
    Agrees (foldMembers admits step first state cs) (some state) tokens := by
  obtain ⟨rest, hsome, hrest⟩ := readKey_end first h
  obtain ⟨_, hread⟩ := outcome_eq_some hsome
  rw [foldMembers, hread]
  exact ⟨rest, rfl, hrest⟩

theorem foldMembers_of_lays
    (hstep : ∀ state key, Implements (step state key) (meaning state key))
    {members : List (List Letter × Value)} {state : σ} {cs : List Char}
    (h : Lays (Value.memberTokens members ++ tokens) cs) :
    Agrees (foldMembers admits step false state cs) (foldMembers? admits meaning state members)
      tokens := by
  induction members generalizing state cs with
  | nil => exact foldMembers_end false state h
  | cons member members ih =>
    apply foldMembers_member hstep _ ih
    have hkey := readKey_next h
    rw [← List.append_assoc]
    exact hkey

/-- What is gathered from a value that is an object. -/
def Value.object? (admits : σ → String → Bool) (meaning : σ → String → Value → Option σ)
    (state : σ) : Value → Option σ
  | .object members => foldMembers? admits meaning state members
  | _ => none

theorem Implements.readObject
    (hstep : ∀ state key, Implements (step state key) (meaning state key)) (state : σ) :
    Implements (readObject admits step state) (Value.object? admits meaning state) := by
  intro v tokens cs h hstops
  obtain ⟨c, more, hspace, hc⟩ := exists_opening h
  unfold Json.readObject
  split
  · next heq =>
    obtain ⟨rfl, -⟩ := List.cons.inj (hspace.symm.trans heq)
    obtain ⟨members, rfl⟩ := hc.object rfl
    cases members with
    | nil =>
      obtain ⟨rest, hobject, hrest⟩ := skipSpace_of_lays_mark h (by decide)
      obtain ⟨-, rfl⟩ := List.cons.inj (hobject.symm.trans heq)
      exact (foldMembers_end true state hrest).longer fun t => ⟨rfl, rfl⟩
    | cons member members =>
      obtain ⟨rest, hobject, hrest⟩ := skipSpace_of_lays_mark h (by decide)
      obtain ⟨-, rfl⟩ := List.cons.inj (hobject.symm.trans heq)
      have hkey := readKey_first hrest
      refine Agrees.longer (foldMembers_member hstep ?_ (foldMembers_of_lays hstep) state)
        fun t => ⟨rfl, rfl⟩
      rw [← List.append_assoc]
      exact hkey
  · next hother =>
    cases v with
    | object members =>
      cases members with
      | nil =>
        obtain ⟨rest, hobject, -⟩ := skipSpace_of_lays_mark h (by decide)
        exact (hother _ hobject).elim
      | cons member members =>
        obtain ⟨rest, hobject, -⟩ := skipSpace_of_lays_mark h (by decide)
        exact (hother _ hobject).elim
    | _ => rfl

end Objects

/-! ### Arrays -/

theorem lays_skipSpace {v : Value} (h : Lays (v.tokens ++ tokens) cs) :
    Lays (v.tokens ++ tokens) (skipSpace cs) := by
  obtain ⟨c, token, others, htokens, hc⟩ := exists_opens v
  rw [htokens] at h ⊢
  obtain ⟨rest, hspace, hrest⟩ := skipSpace_of_lays h hc.not_space
  rw [hspace]
  have hblanks : IsSpaceRun [] := fun d hd => absurd hd List.not_mem_nil
  exact .cons hblanks hrest

theorem nextItem_first {c : Char} {more : List Char} (h : skipSpace cs = c :: more)
    (hc : c ≠ ']') : ∃ shorter, nextItem true cs = .ok (some ⟨c :: more, shorter⟩) := by
  unfold nextItem
  split
  · next heq => exact absurd (h.symm.trans heq) (List.cons_ne_nil _ _)
  · next heq => exact absurd (List.cons.inj (h.symm.trans heq)).1 hc
  · next heq =>
    obtain ⟨rfl, rfl⟩ := List.cons.inj (h.symm.trans heq)
    exact ⟨h ▸ length_skipSpace_le cs, rfl⟩

theorem nextItem_next {c : Char} {rest more : List Char} (h : skipSpace cs = ',' :: rest)
    (h' : skipSpace rest = c :: more) (hc : c ≠ ']') :
    ∃ shorter, nextItem false cs = .ok (some ⟨skipSpace rest, shorter⟩) := by
  have hle : (skipSpace rest).length ≤ cs.length :=
    Nat.le_trans (length_skipSpace_le rest) (Nat.le_of_lt (length_lt_of_skipSpace h))
  unfold nextItem
  split
  · next heq => exact absurd (h.symm.trans heq) (List.cons_ne_nil _ _)
  · next heq => exact absurd (List.cons.inj (h.symm.trans heq)).1 (by decide)
  · next heq =>
    obtain ⟨rfl, rfl⟩ := List.cons.inj (h.symm.trans heq)
    rw [if_neg Bool.false_ne_true, if_pos rfl]
    split
    · next heq' => exact absurd (h'.symm.trans heq') (List.cons_ne_nil _ _)
    · next heq' => exact absurd (List.cons.inj (h'.symm.trans heq')).1 hc
    · exact ⟨hle, rfl⟩

theorem nextItem_end {rest : List Char} (first : Bool) (h : skipSpace cs = ']' :: rest) :
    nextItem first cs = .ok none := by
  unfold nextItem
  split
  · next heq => exact absurd (h.symm.trans heq) (List.cons_ne_nil _ _)
  · rfl
  · next hend heq => exact (hend (List.cons.inj (heq.symm.trans h)).1).elim

section Items

variable {read : (cs : List Char) → Reading α cs} {meaning : Value → Option α}

theorem agrees_readItem (hread : Implements read meaning) {item : Value} {first : Bool}
    {rest : List Char}
    (hnext : ∃ shorter, nextItem first cs = .ok (some ⟨skipSpace rest, shorter⟩))
    (h : Lays (item.tokens ++ tokens) rest) (hstops : Stops tokens) :
    Agrees (readItem first read cs) (meaning item) tokens := by
  obtain ⟨_, hnext⟩ := hnext
  unfold readItem
  rw [hnext]
  exact (hread (lays_skipSpace h) hstops).longer fun t => ⟨rfl, rfl⟩

theorem Implements.readItem_first (hread : Implements read meaning) {item : Value}
    (h : Lays (item.tokens ++ tokens) cs) (hstops : Stops tokens) :
    Agrees (readItem true read cs) (meaning item) tokens := by
  obtain ⟨c, more, hspace, hc⟩ := exists_opening h
  apply agrees_readItem hread _ h hstops
  rw [hspace]
  exact nextItem_first hspace hc.not_closing

theorem Implements.readItem_next (hread : Implements read meaning) {item : Value}
    (h : Lays ([','] :: (item.tokens ++ tokens)) cs) (hstops : Stops tokens) :
    Agrees (readItem false read cs) (meaning item) tokens := by
  obtain ⟨rest, hcomma, hrest⟩ := skipSpace_of_lays_mark h (by decide)
  obtain ⟨c, more, hspace, hc⟩ := exists_opening hrest
  exact agrees_readItem hread (nextItem_next hcomma hspace hc.not_closing) hrest hstops

/-- An item that is missing. -/
theorem agrees_readItem_end (first : Bool) (h : Lays ([']'] :: tokens) cs) :
    Agrees (readItem first read cs) none tokens := by
  obtain ⟨rest, hspace, -⟩ := skipSpace_of_lays_mark h (by decide)
  unfold readItem
  rw [nextItem_end first hspace]
  rfl

end Items

theorem agrees_closeArray (h : Lays ([']'] :: tokens) cs) :
    Agrees (closeArray cs) (some ()) tokens := by
  obtain ⟨rest, hspace, hrest⟩ := skipSpace_of_lays_mark h (by decide)
  refine ⟨rest, ?_, hrest⟩
  unfold closeArray
  split
  · next heq => exact absurd (hspace.symm.trans heq) (List.cons_ne_nil _ _)
  · next heq =>
    obtain ⟨-, rfl⟩ := List.cons.inj (hspace.symm.trans heq)
    rfl
  · next hend => exact (hend _ hspace).elim

/-- An item too many. -/
theorem agrees_closeArray_more (h : Lays ([','] :: tokens) cs) :
    Agrees (closeArray cs) none tokens := by
  obtain ⟨rest, hspace, -⟩ := skipSpace_of_lays_mark h (by decide)
  unfold closeArray
  split
  · rfl
  · next heq => exact absurd (List.cons.inj (hspace.symm.trans heq)).1 (by decide)
  · rfl

end PluralForms.Json
