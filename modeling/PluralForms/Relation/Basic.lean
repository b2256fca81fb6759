import PluralForms.Operands

/-!
# Relations

A relation compares an operand, perhaps reduced by a modulus, with a list of whole numbers and
ranges: `i % 10 = 2..4,9`. This module holds relations, what they say about a number, and their
canonical text.

* `Relation.holds` - the verdict. A relation without a value holds of no number, whichever way it
  compares;
* `Item.contains` - only whole values are ever listed, so `10.1` is not in `3..12`.
-/

namespace PluralForms

open Binary

/-- A listed number, or a range of them with both ends. -/
inductive Item
  | value (n : Nat)
  | range (first last : Nat)
  deriving DecidableEq, Repr

/-- Must the value be listed, or must it not? -/
inductive Comparison
  | equals
  | notEquals
  deriving DecidableEq, Repr

/-- One relation of a rule. Any symbol may be written; one that names no operand has no value. -/
structure Relation where
  symbol : Char
  modulus : Option Nat
  comparison : Comparison
  items : List Item
  deriving DecidableEq, Repr

/-! ### Meaning -/

/-- Is `x` this number, or a number of this range? -/
def Item.contains (x : Double) : Item → Bool
  | .value n => x.isWhole && Double.eq x (Double.ofNat n)
  | .range first last =>
    x.isWhole && (Double.le (Double.ofNat first) x && Double.le x (Double.ofNat last))

namespace Relation

/-- The operand that the relation reads, if its symbol names one. -/
def operand? (r : Relation) : Option Operand := Operand.ofSymbol? r.symbol

/-- The value that is compared. -/
def value (r : Relation) (o : Operands) : Option Double :=
  r.operand?.bind fun operand => o.reduced operand r.modulus

/-- Is the value listed? -/
def lists (r : Relation) (x : Double) : Bool := r.items.any (·.contains x)

/-- The verdict on a value. -/
def accepts (r : Relation) (x : Double) : Bool :=
  match r.comparison with
  | .equals => r.lists x
  | .notEquals => !r.lists x

/-- Does the relation hold? -/
def holds (r : Relation) (o : Operands) : Bool := (r.value o).any r.accepts

end Relation

/-! ### Text -/

def Item.render : Item → String
  | .value n => toString n
  | .range first last => toString first ++ ".." ++ toString last

def Comparison.render : Comparison → String
  | .equals => "="
  | .notEquals => "!="

/-- The canonical text: `%` for the modulus, single blanks, no blank after a comma. -/
def Relation.render (r : Relation) : String :=
  let modulus := match r.modulus with
    | none => ""
    | some m => " % " ++ toString m
  String.singleton r.symbol ++ modulus ++ " " ++ r.comparison.render ++ " "
    ++ ",".intercalate (r.items.map Item.render)

/-! ### JSON -/

def Item.json : Item → Json
  | .value n => .tagged "Value" (.natural n)
  | .range first last =>
    .tagged "Range" (.object [("start", .natural first), ("end", .natural last)])

def Comparison.json : Comparison → Json
  | .equals => .string "Equals"
  | .notEquals => .string "NotEquals"

def Relation.json (r : Relation) : Json :=
  .object [("symbol", .string (String.singleton r.symbol)),
    ("modulus", .ofOption .natural r.modulus), ("operator", r.comparison.json),
    ("values", .array (r.items.map Item.json))]

end PluralForms
