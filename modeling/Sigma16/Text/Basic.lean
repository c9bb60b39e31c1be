/-
Texts are strings of bytes. A source file may hold any bytes at all, and every part of it that is
quoted in a message, a listing or a file name is passed on byte for byte, so no text is ever
required to be valid in an encoding.
-/
namespace Sigma16

/-- A text is a string of bytes. -/
abbrev Text := List UInt8

namespace Text

/-- The bytes of a string. -/
def ofString (s : String) : Text := s.toList.flatMap String.utf8EncodeChar

instance : Coe String Text := ⟨ofString⟩

/-! ## Classes of bytes -/

def isDigit (b : UInt8) : Bool := '0'.toUInt8 ≤ b && b ≤ '9'.toUInt8

def isUpper (b : UInt8) : Bool := 'A'.toUInt8 ≤ b && b ≤ 'Z'.toUInt8

def isLower (b : UInt8) : Bool := 'a'.toUInt8 ≤ b && b ≤ 'z'.toUInt8

def isLetter (b : UInt8) : Bool := isUpper b || isLower b

def isHexDigit (b : UInt8) : Bool :=
  isDigit b || ('a'.toUInt8 ≤ b && b ≤ 'f'.toUInt8) || ('A'.toUInt8 ≤ b && b ≤ 'F'.toUInt8)

/-- Tab, newline, form feed, carriage return and space. -/
def isBlank (b : UInt8) : Bool :=
  b == '\t'.toUInt8 || b == '\n'.toUInt8 || b == 0x0C || b == '\r'.toUInt8 || b == ' '.toUInt8

/-! ## Digits and their values -/

/-- The lower-case hexadecimal digit of a number below 16. -/
def hexDigit (n : Nat) : UInt8 :=
  if n < 10 then '0'.toUInt8 + n.toUInt8 else 'a'.toUInt8 + (n - 10).toUInt8

/-- The value of a hexadecimal digit of either case; other bytes count as zero. -/
def hexValue (b : UInt8) : Nat :=
  if isDigit b then b.toNat - '0'.toNat
  else if 'a'.toUInt8 ≤ b && b ≤ 'f'.toUInt8 then b.toNat - 'a'.toNat + 10
  else if 'A'.toUInt8 ≤ b && b ≤ 'F'.toUInt8 then b.toNat - 'A'.toNat + 10
  else 0

/-- The number that a string of hexadecimal digits denotes. -/
def hexNumber (digits : Text) : Nat := digits.foldl (fun n b => 16 * n + hexValue b) 0

/-! ## Taking texts apart and joining them -/

/-- The parts before and after the first `sep`, if there is one. -/
def cut? (sep : UInt8) (t : Text) : Option (Text × Text) :=
  if t.contains sep then some (t.takeWhile (· != sep), (t.dropWhile (· != sep)).tail) else none

/-- The number of bytes before the first occurrence of `needle`. -/
def find? (needle : Text) : Text → Option Nat
  | [] => if needle.isEmpty then some 0 else none
  | b :: s => if needle.isPrefixOf (b :: s) then some 0 else (find? needle s).map (· + 1)

/-- Texts with `sep` between them. -/
def join (sep : Text) (parts : List Text) : Text := sep.intercalate parts

/-- Lines, each of them ended by a newline. No lines at all still give one newline. -/
def ofLines (lines : List Text) : Text := join "\n" lines ++ "\n"

end Text

/-- A list cut into pieces of `n` items, `n` being positive; the last piece may be shorter. -/
def chunks {α : Type} (n : Nat) : List α → List (List α)
  | [] => []
  | x :: xs => (x :: xs.take (n - 1)) :: chunks n (xs.drop (n - 1))
termination_by xs => xs.length
decreasing_by simp only [List.length_drop, List.length_cons]; omega

end Sigma16
