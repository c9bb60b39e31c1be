/-
Numeric literals: decimals such as `-12` and words in hexadecimal such as `$00ff`.
-/
import Sigma16.Text.Quoted
import Sigma16.Word

namespace Sigma16

/-- Why a text is no literal. -/
inductive LiteralError where
  /-- Not a dollar sign and four more bytes. -/
  | hexShape
  /-- Some of the four bytes after the dollar sign are no hexadecimal digits. -/
  | hexDigits (digits : Text)
  /-- A decimal starts with a plus sign. -/
  | plusSign
  /-- Not an optional minus sign followed by digits. -/
  | decimalDigits (text : Text)
  /-- The number does not fit into 32 bits with a sign. -/
  | decimalRange (text : Text)
  deriving DecidableEq, Repr

def LiteralError.message : LiteralError → Text
  | .hexShape => "Invalid hex string"
  | .hexDigits digits => "strconv.ParseUint: parsing " ++ Text.quoted digits ++ ": invalid syntax"
  | .plusSign => "invalid syntax"
  | .decimalDigits text => "strconv.ParseInt: parsing " ++ Text.quoted text ++ ": invalid syntax"
  | .decimalRange text => "strconv.ParseInt: parsing " ++ Text.quoted text ++ ": value out of range"

namespace Literal

/-- The word denoted by a dollar sign and exactly four hexadecimal digits. -/
def hex (t : Text) : Except LiteralError Word :=
  match t with
  | [dollar, x, y, z, w] =>
    if dollar == '$'.toUInt8 then
      if [x, y, z, w].all Text.isHexDigit then .ok (.ofNat (Text.hexNumber [x, y, z, w]))
      else .error (.hexDigits [x, y, z, w])
    else .error .hexShape
  | _ => .error .hexShape

/-- What ends the reading of digits early. -/
inductive Stop where
  | notDigit
  | tooLarge
  deriving DecidableEq, Repr

/-- Reads digits from left to right after a number `n` read so far. It stops at the first byte that
is no digit, or as soon as the number needs more than 32 bits, whichever comes first. -/
def digits : Nat → Text → Except Stop Nat
  | n, [] => .ok n
  | n, b :: s =>
    if Text.isDigit b then
      let n' := 10 * n + (b.toNat - '0'.toNat)
      if n' < 0x100000000 then digits n' s else .error .tooLarge
    else .error .notDigit

/-- The number denoted by an optional minus sign and digits, if it fits into 32 bits with a
sign. -/
def decimal (t : Text) : Except LiteralError Int :=
  if t.head? == some '+'.toUInt8 then .error .plusSign
  else
    let negative := t.head? == some '-'.toUInt8
    let body := if negative then t.tail else t
    if body.isEmpty then .error (.decimalDigits t)
    else
      match digits 0 body with
      | .error .notDigit => .error (.decimalDigits t)
      | .error .tooLarge => .error (.decimalRange t)
      | .ok n =>
        if negative then if n ≤ 0x80000000 then .ok (-n) else .error (.decimalRange t)
        else if n < 0x80000000 then .ok n else .error (.decimalRange t)

end Literal

end Sigma16
