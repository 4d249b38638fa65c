import AliasStubs.Text.Hex

/-!
# Metadata tokens

A token names one row of one metadata table: the table's number stands in the high byte and
the 1-based row in the low 24 bits. Row zero names nothing.

## Main definitions

* `Token` with its parts `Token.table` and `Token.row`.
* `Token.text` and `Token.describe` : the two spellings used in messages and listings.
-/

namespace AliasStubs

/-- A reference to one row of one metadata table, as a 32-bit number. -/
structure Token where
  /-- The packed number. -/
  value : Nat
  deriving DecidableEq, Repr, Hashable, Inhabited

namespace Token

/-- The table's number, held in the bits above the row. -/
def table (t : Token) : Nat :=
  t.value >>> 24

/-- The 1-based row, held in the low 24 bits. -/
def row (t : Token) : Nat :=
  t.value &&& 0xFFFFFF

/-- A token whose row is zero names nothing. -/
def isNull (t : Token) : Bool :=
  t.row == 0

/-- The token as eight hexadecimal digits. -/
def text (t : Token) : String :=
  "0x" ++ Hex.text 8 t.value

/-- The token with its two parts spelled out. -/
def describe (t : Token) : String :=
  "Token(" ++ t.text ++ ", table: 0x" ++ Hex.text 2 t.table ++ ", row: " ++ toString t.row ++ ")"

end Token

end AliasStubs
