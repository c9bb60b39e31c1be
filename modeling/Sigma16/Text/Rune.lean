/-
Characters of a byte text. Columns and widths count characters: a well-formed UTF-8 sequence is
one character, and a byte that belongs to no such sequence (overlong forms and surrogates are not
well formed) counts as a character of its own.
-/
import Sigma16.Text.Basic

namespace Sigma16.Text

/-! ## The character at the start of a text -/

/-- A byte that may follow the first two bytes of a sequence. -/
def isTail (b : UInt8) : Bool := 0x80 ≤ b && b ≤ 0xBF

/-- The bytes that may follow the lead byte `a`: narrower after those leads that would otherwise
begin an overlong form, a surrogate or a number above the last code point. -/
def isSecond (a b : UInt8) : Bool :=
  (if a == 0xE0 then 0xA0 else if a == 0xF0 then 0x90 else 0x80) ≤ b &&
    b ≤ (if a == 0xED then 0x9F else if a == 0xF4 then 0x8F else 0xBF)

/-- The six low bits of a byte. -/
def lowBits (b : UInt8) : Nat := b.toNat % 64

/-- The code point of the character that a text starts with and its number of bytes, or `none`
where the first byte stands for itself. -/
def first? : Text → Option (Nat × Nat)
  | [] => none
  | a :: s =>
    if a < 0x80 then some (a.toNat, 1)
    else if a < 0xC2 then none
    else if a < 0xE0 then
      match s with
      | b :: _ => if isSecond a b then some (a.toNat % 32 * 64 + lowBits b, 2) else none
      | [] => none
    else if a < 0xF0 then
      match s with
      | b :: c :: _ =>
        if isSecond a b && isTail c then some ((a.toNat % 16 * 64 + lowBits b) * 64 + lowBits c, 3) else none
      | _ => none
    else if a < 0xF5 then
      match s with
      | b :: c :: d :: _ =>
        if isSecond a b && isTail c && isTail d then
          some (((a.toNat % 8 * 64 + lowBits b) * 64 + lowBits c) * 64 + lowBits d, 4)
        else none
      | _ => none
    else none

/-! ## All characters -/

/-- The characters of a text after its first `skip` bytes. -/
def runesFrom : Nat → Text → List (Option Nat)
  | _, [] => []
  | 0, a :: s =>
    match first? (a :: s) with
    | some (c, n) => some c :: runesFrom (n - 1) s
    | none => none :: runesFrom 0 s
  | skip + 1, _ :: s => runesFrom skip s

/-- The characters of a text in order: a code point, or `none` for a byte that stands for
itself. -/
def runes (t : Text) : List (Option Nat) := runesFrom 0 t

/-- The number of characters of a text. -/
def width (t : Text) : Nat := (runes t).length

end Sigma16.Text
