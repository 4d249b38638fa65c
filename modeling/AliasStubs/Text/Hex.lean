/-!
# Hexadecimal text

Tokens and bit masks are written in lowercase hexadecimal, padded on the left with zeros to
a fixed width. A number that needs more digits than the width keeps all of them.

## Main definitions

* `Hex.text` : the digits of a number, padded to a width.
-/

namespace AliasStubs.Hex

/-- The lowercase hexadecimal digits of `n`, padded with zeros to at least `width` digits. -/
def text (width n : Nat) : String :=
  String.ofList ((Nat.toDigits 16 n).leftpad width '0')

end AliasStubs.Hex
