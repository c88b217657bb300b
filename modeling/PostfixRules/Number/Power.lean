/-!
# Powers

Powers of natural numbers are those of the language itself, whatever algebra is in scope where they
are written. They are evaluated directly, and the lemmas on natural numbers are about them.
-/

namespace PostfixRules

attribute [scoped instance (2000)] instPowNat

end PostfixRules
