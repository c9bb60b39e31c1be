/-
Numbers as text, and texts padded to a column.
-/
import Sigma16.Text.Rune

namespace Sigma16.Text

/-- The decimal digits of a natural number, without leading zeros. -/
def natural (n : Nat) : Text := (Nat.toDigits 10 n).map Char.toUInt8

/-- An integer in decimal, with a minus sign if it is negative. -/
def decimal (n : Int) : Text := if n < 0 then "-" ++ natural n.natAbs else natural n.natAbs

/-- A text filled up on the left to at least `n` characters. -/
def padLeft (fill : Char) (n : Nat) (t : Text) : Text :=
  List.replicate (n - width t) fill.toUInt8 ++ t

/-- A text filled up with spaces on the right to at least `n` characters. -/
def padRight (n : Nat) (t : Text) : Text := t ++ List.replicate (n - width t) ' '.toUInt8

/-- A decimal of at least two characters, the sign among them. -/
def twoPlaces (n : Int) : Text := if n < 0 then decimal n else padLeft '0' 2 (decimal n)

/-- Numbers in decimal with commas between them. -/
def decimals (ns : List Int) : Text := join "," (ns.map decimal)

end Sigma16.Text
