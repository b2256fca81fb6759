/-!
# Powers

`10 ^ n` and `2 ^ n` are core's own powers of natural numbers throughout, also where an algebraic
library with a power for every monoid is in reach: core's are what runs, and what `decide` and
`omega` know.
-/

namespace PluralForms

attribute [scoped instance (2000)] instPowNat

end PluralForms
