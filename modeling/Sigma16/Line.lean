/-
Source lines and their parts. A line is a label, an operation, operands and a comment, with blanks
between them; each part is as long as it can be, and what follows the operands is comment.
-/
import Sigma16.Text.Rune

namespace Sigma16

namespace Text

/-- The lines of a source: newlines end them, carriage returns are dropped. -/
def sourceLines (t : Text) : List Text :=
  (t.filter (· != '\r'.toUInt8)).splitOn '\n'.toUInt8

/-- Tab, newline and the printable characters of ASCII. -/
def isSourceRune : Option Nat → Bool
  | some c => c == 0x09 || c == 0x0A || (0x20 ≤ c && c ≤ 0x7E)
  | none => false

/-- The columns of the characters that a source may not hold. -/
def invalidColumns (t : Text) : List Nat :=
  ((runes t).zipIdx 1).filterMap fun (c, column) => if isSourceRune c then none else some column

/-- A byte of a name after the first. -/
def isNameByte (b : UInt8) : Bool := isLetter b || isDigit b || b == '_'.toUInt8

/-- A letter, then letters, digits and underscores. -/
def isName : Text → Bool
  | [] => false
  | b :: s => isLetter b && s.all isNameByte

/-- The texts between the commas; no operands in an empty text. -/
def splitOperands (t : Text) : List Text := if t.isEmpty then [] else t.splitOn ','.toUInt8

/-- A byte of a label, an operation or an operand. -/
def isWordByte (b : UInt8) : Bool := !isBlank b && b != '"'.toUInt8 && b != ';'.toUInt8

end Text

/-- The parts of a line, blanks included. -/
structure Line where
  label : Text := []
  labelGap : Text := []
  mnemonic : Text := []
  mnemonicGap : Text := []
  operands : Text := []
  comment : Text := []
  deriving DecidableEq, Repr

namespace Line

/-- The parts put together again. -/
def text (l : Line) : Text :=
  l.label ++ l.labelGap ++ l.mnemonic ++ l.mnemonicGap ++ l.operands ++ l.comment

/-- The longest parts from left to right; the rest is comment. -/
def split (t : Text) : Line :=
  let afterLabel := t.dropWhile Text.isWordByte
  let atMnemonic := afterLabel.dropWhile Text.isBlank
  let afterMnemonic := atMnemonic.dropWhile Text.isWordByte
  let atOperands := afterMnemonic.dropWhile Text.isBlank
  { label := t.takeWhile Text.isWordByte
    labelGap := afterLabel.takeWhile Text.isBlank
    mnemonic := atMnemonic.takeWhile Text.isWordByte
    mnemonicGap := afterMnemonic.takeWhile Text.isBlank
    operands := atOperands.takeWhile Text.isWordByte
    comment := atOperands.dropWhile Text.isWordByte }

/-- The parts of a line, unless its comment would reach over a newline. -/
def ofText? (t : Text) : Option Line :=
  let line := split t
  if line.comment.contains '\n'.toUInt8 then none else some line

end Line

end Sigma16
