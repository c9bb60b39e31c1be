/-
Machine words: 16 bits, addressing wraps around.
-/
import Sigma16.Text.Number

namespace Sigma16

/-- A machine word, also the address of one. -/
abbrev Word := UInt16

namespace Word

/-- The four hexadecimal digits of a word. -/
def hex (w : Word) : Text :=
  [Text.hexDigit (w.toNat / 4096), Text.hexDigit (w.toNat / 256 % 16),
   Text.hexDigit (w.toNat / 16 % 16), Text.hexDigit (w.toNat % 16)]

/-- Words in hexadecimal with commas between them. -/
def hexList (ws : List Word) : Text := Text.join "," (ws.map hex)

/-- The word of an integer that fits into 16 bits, with or without a sign; negative numbers are
in two's complement. -/
def ofInt? (n : Int) : Option Word :=
  if -32768 ≤ n ∧ n ≤ 65535 then some (UInt16.ofInt n) else none

end Word

end Sigma16
