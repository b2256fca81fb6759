/-!
# Cutting text at a separator

`splitOn sep cs` cuts `cs` at every occurrence of `sep`, taken from left to right without overlap.
A text without the separator is its own single piece, so there is always at least one piece.

* `splitOn_cons` - the recursion by which all else is proved: either the separator stands here and
  a new piece begins behind it, or the character belongs to the first piece.
-/

namespace PluralForms.Text

/-- Put `c` before the first piece. -/
def pushFirst (c : Char) : List (List Char) → List (List Char)
  | [] => [[c]]
  | piece :: pieces => (c :: piece) :: pieces

/-- The pieces of a text of which the first `skip` characters belong to a separator already met. -/
def splitFrom (sep : List Char) : Nat → List Char → List (List Char)
  | _, [] => [[]]
  | skip + 1, _ :: cs => splitFrom sep skip cs
  | 0, c :: cs =>
    if sep.isPrefixOf (c :: cs) then [] :: splitFrom sep (sep.length - 1) cs
    else pushFirst c (splitFrom sep 0 cs)

/-- The pieces of `cs` between the occurrences of `sep`. -/
def splitOn (sep cs : List Char) : List (List Char) := splitFrom sep 0 cs

/-- The two parts of `cs` around the first `mark`, which belongs to neither. -/
def cutAt (mark : Char) (cs : List Char) : Option (List Char × List Char) :=
  match cs.dropWhile (· != mark) with
  | [] => none
  | _ :: after => some (cs.takeWhile (· != mark), after)

/-- What follows `lead` in a text that begins with it. -/
def dropLead (lead cs : List Char) : Option (List Char) :=
  if lead.isPrefixOf cs then some (cs.drop lead.length) else none

/-! ### What is left is no longer -/

theorem length_dropWhile_le (p : Char → Bool) (cs : List Char) :
    (cs.dropWhile p).length ≤ cs.length :=
  (List.dropWhile_suffix p).length_le

/-! ### How splitting recurs -/

theorem splitFrom_eq_drop (sep : List Char) (skip : Nat) (cs : List Char) :
    splitFrom sep skip cs = splitFrom sep 0 (cs.drop skip) := by
  induction cs generalizing skip with
  | nil => cases skip <;> rfl
  | cons c cs ih =>
    cases skip with
    | zero => rfl
    | succ skip => simpa [splitFrom] using ih skip

@[simp] theorem splitOn_nil (sep : List Char) : splitOn sep [] = [[]] := rfl

theorem splitOn_cons (sep : List Char) (c : Char) (cs : List Char) :
    splitOn sep (c :: cs) =
      if sep.isPrefixOf (c :: cs) then [] :: splitOn sep (cs.drop (sep.length - 1))
      else pushFirst c (splitOn sep cs) := by
  unfold splitOn
  rw [splitFrom, splitFrom_eq_drop]

theorem splitOn_ne_nil (sep cs : List Char) : splitOn sep cs ≠ [] := by
  cases cs with
  | nil => simp
  | cons c cs =>
    rw [splitOn_cons]
    split
    · simp
    · cases splitOn sep cs <;> simp [pushFirst]

end PluralForms.Text
