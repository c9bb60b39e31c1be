/-
Texts in quotation marks, as messages show them: a printable character stands for itself, the
mark and the backslash are escaped, and everything else is written as an escape that names it.
-/
import Sigma16.Text.Rune
import Sigma16.Text.Printable

namespace Sigma16.Text

/-- The last `n` hexadecimal digits of a number. -/
def hexDigits : Nat → Nat → Text
  | 0, _ => []
  | n + 1, c => hexDigits n (c / 16) ++ [hexDigit (c % 16)]

/-- How the code point `c`, whose bytes are `bytes`, is written between two marks. -/
def escape (mark : UInt8) (c : Nat) (bytes : Text) : Text :=
  if c == mark.toNat || c == '\\'.toNat then "\\" ++ bytes
  else if isPrintable c then bytes
  else if c == 0x07 then "\\a"
  else if c == 0x08 then "\\b"
  else if c == 0x0C then "\\f"
  else if c == 0x0A then "\\n"
  else if c == 0x0D then "\\r"
  else if c == 0x09 then "\\t"
  else if c == 0x0B then "\\v"
  else if c < 0x20 || c == 0x7F then "\\x" ++ hexDigits 2 c
  else if c < 0x10000 then "\\u" ++ hexDigits 4 c
  else "\\U" ++ hexDigits 8 c

/-- A text after its first `skip` bytes, written between two marks. A byte that stands for itself
is written in hexadecimal. -/
def escapedFrom (mark : UInt8) : Nat → Text → Text
  | _, [] => []
  | 0, a :: s =>
    match first? (a :: s) with
    | some (c, n) => escape mark c ((a :: s).take n) ++ escapedFrom mark (n - 1) s
    | none => "\\x" ++ hexDigits 2 a.toNat ++ escapedFrom mark 0 s
  | skip + 1, _ :: s => escapedFrom mark skip s

/-- A text between double quotes. -/
def quoted (t : Text) : Text := "\"" ++ escapedFrom '"'.toUInt8 0 t ++ "\""

/-- The character with the code of one byte, between single quotes. -/
def quotedByte (b : UInt8) : Text :=
  "'" ++ escape '\''.toUInt8 b.toNat (String.utf8EncodeChar (Char.ofNat b.toNat)) ++ "'"

end Sigma16.Text
