/-!
# Powers

The powers of ten and of two, by which decimals and doubles are scaled.
-/

namespace RecordQuery

/-- The power of ten with an exponent. -/
def tenTo (exponent : Nat) : Nat := Nat.pow 10 exponent

/-- The power of two with an exponent. -/
def twoTo (exponent : Nat) : Nat := Nat.pow 2 exponent

end RecordQuery
