import PluralForms.Json.Walk
import PluralForms.Proofs.Numeral.Grammar

/-!
# JSON documents

A document is a value, and its text is a layout of the value's tokens: the tokens in order, with any
blanks between them and around them. The layout is all that is left open. How a character is
escaped, how a number is spelled and in which order the members of an object stand is said by the
value.

* `Value` - the values, with their strings and numbers as spelled;
* `decode` - the characters of a string, if the halves of surrogate pairs in it meet;
* `Value.Writes` - the texts of a value.
-/

namespace PluralForms.Json

/-! ### Strings -/

/-- A hexadecimal digit. -/
abbrev HexDigit : Type := { c : Char // (hexValue c).isSome = true }

/-- The number that four hexadecimal digits stand for. -/
def codeOf (a b c d : HexDigit) : Nat :=
  let value (digit : HexDigit) := (hexValue digit.1).get digit.2
  value a * 4096 + value b * 256 + value c * 16 + value d

/-- A part of a string. -/
inductive Letter
  /-- A character that stands for itself. -/
  | plain (c : Char) (h : 0x20 ≤ c.toNat ∧ c ≠ '"' ∧ c ≠ '\\')
  /-- A backslash and a mark, which stand for `c`. -/
  | escape (mark c : Char) (h : simpleEscape mark = some c)
  /-- A backslash, the letter `u` and a code: of a character, or of half of a surrogate pair. -/
  | code (a b c d : HexDigit)

def Letter.text : Letter → List Char
  | .plain c _ => [c]
  | .escape mark _ _ => ['\\', mark]
  | .code a b c d => ['\\', 'u', a.1, b.1, c.1, d.1]

/-- A string between its quotation marks. -/
def quoted (letters : List Letter) : List Char := '"' :: (letters.flatMap Letter.text ++ ['"'])

def isLead (code : Nat) : Bool := 0xD800 ≤ code && code ≤ 0xDBFF

def isTrail (code : Nat) : Bool := 0xDC00 ≤ code && code ≤ 0xDFFF

/-- The characters of a string. The two halves of a surrogate pair make one character, and neither
half is one. -/
def decode : List Letter → Option (List Char)
  | [] => some []
  | .plain c _ :: letters => (decode letters).map (c :: ·)
  | .escape _ c _ :: letters => (decode letters).map (c :: ·)
  | .code a b c d :: letters =>
    let high := codeOf a b c d
    if isTrail high then none
    else if isLead high then
      match letters with
      | .code a b c d :: letters =>
        let low := codeOf a b c d
        if isTrail low then
          (decode letters).map
            (Char.ofNat (0x10000 + (high - 0xD800) * 1024 + (low - 0xDC00)) :: ·)
        else none
      | _ => none
    else (decode letters).map (Char.ofNat high :: ·)

/-- The text of a string. -/
def textOf (letters : List Letter) : Option String := (decode letters).map String.ofList

/-! ### Numbers -/

/-- The digits in front of a point: no zero in front of others. -/
inductive IsWhole : List Char → Prop
  | zero : IsWhole ['0']
  | digits {c cs} : c ≠ '0' → IsDigits (c :: cs) → IsWhole (c :: cs)

/-- A power of ten behind a number, or nothing. -/
inductive IsPower : List Char → Prop
  | none : IsPower []
  | some {mark cs e} : mark ∈ ['e', 'E'] → Numeral.WritesSigned cs e → IsPower (mark :: cs)

/-- The spelling of a number. -/
inductive IsNumber : List Char → Prop
  | mk {sign whole behind fraction power} : Numeral.IsMinus sign → IsWhole whole →
      Numeral.WritesFraction behind fraction → IsPower power →
      IsNumber (sign ++ (whole ++ (behind ++ power)))

/-! ### Values -/

/-- A value as it is spelled, apart from blanks. -/
inductive Value
  | null
  | bool (value : Bool)
  | number (digits : List Char) (h : IsNumber digits)
  | string (letters : List Letter)
  | array (items : List Value)
  | object (members : List (List Letter × Value))

namespace Value

mutual

/-- The tokens that a value is written with. -/
def tokens : Value → List (List Char)
  | null => ["null".toList]
  | bool true => ["true".toList]
  | bool false => ["false".toList]
  | number digits _ => [digits]
  | string letters => [quoted letters]
  | array [] => [['['], [']']]
  | array (item :: items) => ['['] :: (tokens item ++ itemTokens items)
  | object [] => [['\x7b'], ['\x7d']]
  | object ((key, value) :: members) =>
    ['\x7b'] :: quoted key :: [':'] :: (tokens value ++ memberTokens members)

/-- The tokens behind an item of an array, up to its end. -/
def itemTokens : List Value → List (List Char)
  | [] => [[']']]
  | item :: items => [','] :: (tokens item ++ itemTokens items)

/-- The tokens behind a member of an object, up to its end. -/
def memberTokens : List (List Letter × Value) → List (List Char)
  | [] => [['\x7d']]
  | (key, value) :: members =>
    [','] :: quoted key :: [':'] :: (tokens value ++ memberTokens members)

end

end Value

/-! ### Layouts -/

/-- Blanks only, perhaps none. -/
def IsSpaceRun (cs : List Char) : Prop := ∀ c ∈ cs, isSpace c = true

/-- The tokens in order, with blanks between and around them. -/
inductive Lays : List (List Char) → List Char → Prop
  | nil {blanks} : IsSpaceRun blanks → Lays [] blanks
  | cons {blanks token tokens cs} : IsSpaceRun blanks → Lays tokens cs →
      Lays (token :: tokens) (blanks ++ (token ++ cs))

/-- `text` is the value as a document. -/
def Value.Writes (v : Value) (text : String) : Prop := Lays v.tokens text.toList

theorem lays_flatten (tokens : List (List Char)) : Lays tokens tokens.flatten := by
  have hblanks : IsSpaceRun [] := fun c hc => absurd hc List.not_mem_nil
  induction tokens with
  | nil => exact .nil hblanks
  | cons token tokens ih => exact .cons hblanks ih

/-- The text of a value without any blanks. -/
def Value.text (v : Value) : String := String.ofList v.tokens.flatten

theorem Value.writes_text (v : Value) : v.Writes v.text := by
  unfold Value.Writes Value.text
  rw [String.toList_ofList]
  exact lays_flatten v.tokens

theorem skipSpace_of_lays_nil {cs : List Char} (h : Lays [] cs) : skipSpace cs = [] := by
  cases h with
  | nil hblanks => exact List.dropWhile_eq_nil_iff.2 hblanks

/-- Behind blanks there is the next token. -/
theorem skipSpace_of_lays {c : Char} {token cs : List Char} {tokens : List (List Char)}
    (h : Lays ((c :: token) :: tokens) cs) (hc : isSpace c = false) :
    ∃ rest, skipSpace cs = c :: (token ++ rest) ∧ Lays tokens rest := by
  cases h with
  | @cons blanks _ _ rest hblanks hrest =>
    refine ⟨rest, ?_, hrest⟩
    apply Text.dropWhile_run hblanks
    intro d hd
    obtain rfl : c = d := Option.some.inj hd
    exact hc

/-- Behind blanks there is the next mark. -/
theorem skipSpace_of_lays_mark {c : Char} {cs : List Char} {tokens : List (List Char)}
    (h : Lays ([c] :: tokens) cs) (hc : isSpace c = false) :
    ∃ rest, skipSpace cs = c :: rest ∧ Lays tokens rest :=
  skipSpace_of_lays h hc

/-! ### How values begin -/

theorem exists_cons_of_isWhole {whole : List Char} (h : IsWhole whole) :
    ∃ c more, whole = c :: more ∧ c.isDigit = true ∧ IsDigits more ∧ ¬(c = '0' ∧ more ≠ []) := by
  cases h with
  | zero => exact ⟨'0', [], rfl, rfl, fun _ hd => absurd hd List.not_mem_nil, fun h => h.2 rfl⟩
  | digits hc hdigits =>
    exact ⟨_, _, rfl, hdigits _ List.mem_cons_self,
      fun d hd => hdigits d (List.mem_cons_of_mem _ hd), fun h => hc h.1⟩

theorem exists_head_of_isNumber {digits : List Char} (h : IsNumber digits) :
    ∃ c more, digits = c :: more ∧ (c.isDigit || c == '-') = true := by
  obtain @⟨sign, whole, behind, fraction, power, hsign, hwhole, -, -⟩ := h
  cases hsign with
  | minus => exact ⟨'-', _, rfl, rfl⟩
  | none =>
    obtain ⟨c, more, rfl, hc, -⟩ := exists_cons_of_isWhole hwhole
    exact ⟨c, _, rfl, by rw [hc, Bool.true_or]⟩

theorem ne_of_number {c d : Char} (hc : (c.isDigit || c == '-') = true)
    (hd : (d.isDigit || d == '-') = false) : c ≠ d := by
  rintro rfl
  rw [hc] at hd
  exact absurd hd (by decide)

theorem not_isSpace_of_number {c : Char} (hc : (c.isDigit || c == '-') = true) :
    isSpace c = false := by
  unfold isSpace
  simp only [Bool.or_eq_false_iff, beq_eq_false_iff_ne]
  refine ⟨⟨⟨?_, ?_⟩, ?_⟩, ?_⟩
  all_goals exact ne_of_number hc (by decide)

/-- What the first character says about the value that it begins. -/
structure Opens (v : Value) (c : Char) : Prop where
  not_space : isSpace c = false
  not_closing : c ≠ ']'
  null : c = 'n' → v = .null
  string : c = '"' → ∃ letters, v = .string letters
  array : c = '[' → ∃ items, v = .array items
  object : c = '\x7b' → ∃ members, v = .object members

theorem exists_opens (v : Value) :
    ∃ c token tokens, v.tokens = (c :: token) :: tokens ∧ Opens v c := by
  match v with
  | .null => exact ⟨'n', _, _, rfl, by constructor <;> simp [isSpace]⟩
  | .bool true => exact ⟨'t', _, _, rfl, by constructor <;> simp [isSpace]⟩
  | .bool false => exact ⟨'f', _, _, rfl, by constructor <;> simp [isSpace]⟩
  | .number digits hdigits =>
    obtain ⟨c, more, rfl, hc⟩ := exists_head_of_isNumber hdigits
    refine ⟨c, more, [], rfl,
      ⟨not_isSpace_of_number hc, ne_of_number hc (by decide), ?_, ?_, ?_, ?_⟩⟩
    all_goals
      intro heq
      exact absurd heq (ne_of_number hc (by decide))
  | .string letters => exact ⟨'"', _, _, rfl, by constructor <;> simp [isSpace]⟩
  | .array [] => exact ⟨'[', _, _, rfl, by constructor <;> simp [isSpace]⟩
  | .array (item :: items) => exact ⟨'[', _, _, rfl, by constructor <;> simp [isSpace]⟩
  | .object [] => exact ⟨'\x7b', _, _, rfl, by constructor <;> simp [isSpace]⟩
  | .object (member :: members) => exact ⟨'\x7b', _, _, rfl, by constructor <;> simp [isSpace]⟩

/-- Behind blanks there is the first character of the next value. -/
theorem exists_opening {v : Value} {tokens : List (List Char)} {cs : List Char}
    (h : Lays (v.tokens ++ tokens) cs) : ∃ c more, skipSpace cs = c :: more ∧ Opens v c := by
  obtain ⟨c, token, others, htokens, hc⟩ := exists_opens v
  rw [htokens] at h
  obtain ⟨rest, hspace, -⟩ := skipSpace_of_lays h hc.not_space
  exact ⟨c, _, hspace, hc⟩

end PluralForms.Json
