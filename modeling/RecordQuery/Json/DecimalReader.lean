import RecordQuery.Json.Printer

/-!
# Readers of decimals

Two numbers are compared by the decimals that their texts are read as, if both can be read. What a
text without an exponent is read as is settled. Whether one with an exponent is read at all depends
on the reader: for one `1e16` is the decimal 10000000000000000, for another it is none. So the
reader is a parameter, and all that is asked of it is that it reads number texts as the decimals
they denote, where it may leave out those with an exponent.

The reader in use takes exponents.
-/

namespace RecordQuery

/-- A reader of the texts of JSON numbers. -/
class DecimalReader where
  /-- The decimal that a text is read as. -/
  read? (text : String) : Option Decimal
  /-- The text of a number is read as the decimal it denotes; only one with an exponent may be left
  unread. -/
  read?_eq (v : Json) (text : String) (h : v.numberText? = some text) :
    read? text = Decimal.ofText? text.toList ∨ 'e' ∈ text.toList ∧ read? text = none

/-- The reader that takes exponents. -/
instance DecimalReader.scientific : DecimalReader where
  read? text := Decimal.ofText? text.toList
  read?_eq _ _ _ := .inl rfl

end RecordQuery
